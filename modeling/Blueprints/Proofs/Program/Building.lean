import Blueprints.Cli.Run
import Blueprints.Proofs.Catalog.Merging
import Blueprints.Proofs.Program.InStep
import Blueprints.Proofs.Wiring.Readers

/-! # Documents compiled together and alone

    A compilation looks up the definitions of the nodes of its blueprint and no
    others (`compile_of_definedAlike`).  A document that is compiled alone has
    the catalog of the project and its own definitions.  A document that is
    compiled together with others has theirs too, and where two of them define
    one id, the definition of the first counts, also for the second.  So both
    ways give the same program if the nodes use ids that the catalog has, or
    whose first definition of all is the document's own
    (`built_as_compiled_alone`). -/

namespace Blueprints

/-! ## The same definitions -/

/-- Two catalogs have the same definitions for the nodes of a blueprint. -/
def Blueprint.DefinedAlike (b : Blueprint) (catalog catalog' : Catalog) : Prop :=
  ∀ n ∈ b.nodes, catalog'.find? n.definitionId = catalog.find? n.definitionId

namespace Blueprint.DefinedAlike

variable {b : Blueprint} {catalog catalog' : Catalog}

theorem symm (h : b.DefinedAlike catalog catalog') : b.DefinedAlike catalog' catalog :=
  fun n hn => (h n hn).symm

theorem kind? (h : b.DefinedAlike catalog catalog') {n : Node} (hn : n ∈ b.nodes) :
    catalog'.kind? n = catalog.kind? n :=
  Catalog.kind?_congr (h n hn)

theorem isPure (h : b.DefinedAlike catalog catalog') (id : String) :
    (Index.build b).isPure catalog' id = (Index.build b).isPure catalog id :=
  Index.isPure_congr rfl fun _ hn => h.kind? (Index.mem_of_node?_build hn)

/-- Outputs are given the same names. -/
theorem allocate (h : b.DefinedAlike catalog catalog') :
    Temporaries.allocate b catalog' = Temporaries.allocate b catalog := by
  rw [Temporaries.allocate, Temporaries.allocate]
  refine List.foldl_ext _ _ _ fun ts entry hentry => ?_
  obtain ⟨n, position⟩ := entry
  dsimp only
  rw [Temporaries.addNode, Temporaries.addNode, h n (List.fst_mem_of_mem_zipIdx hentry)]

/-- What reads a variable by one catalog reads it by the other. -/
theorem readsVariable (h : b.DefinedAlike catalog catalog') {id : String}
    (hid : ReadsVariable b catalog id) : ReadsVariable b catalog' id := by
  induction hid with
  | itself hn hkind =>
      refine .itself hn ?_
      rw [h.kind? hn, hkind]
  | through _ hleaving hpure ih =>
      refine .through ih hleaving ?_
      rw [h.isPure, hpure]

theorem isReader (h : b.DefinedAlike catalog catalog') (options : Options) (id : String) :
    (Context.of b catalog' options).isReader id = (Context.of b catalog options).isReader id := by
  rw [Bool.eq_iff_iff, isReader_iff, isReader_iff]
  exact ⟨h.symm.readsVariable, h.readsVariable⟩

end Blueprint.DefinedAlike

/-! ## The same program -/

theorem Findings.Alike.eq {f f' : Findings} (h : f.Alike Eq f') : f' = f := by
  obtain ⟨helpers, names, diagnostics⟩ := f
  obtain ⟨rfl, rfl, rfl⟩ := h
  rfl

theorem Emission.Alike.eq {e e' : Emission} (h : e.Alike Eq e') : e' = e := by
  obtain ⟨f, rfl, hf⟩ := h
  rw [hf.eq]
  rfl

/-- Programs that are alike and have the same diagnostics are the same. -/
theorem Program.Alike.eq {p p' : Program} (h : p.Alike Eq p') : p' = p := by
  obtain ⟨source, analysis, diagnostics⟩ := p
  obtain ⟨rfl, rfl, rfl⟩ := h
  rfl

section Compiling

variable {b : Blueprint} {catalog catalog' : Catalog}

/-- **Compilations with the same definitions for the nodes look up the same.** -/
theorem Blueprint.DefinedAlike.context (h : b.DefinedAlike catalog catalog') (options : Options) :
    (Context.of b catalog options).Alike Eq (.of b catalog' options) where
  catalog := h
  options := rfl
  nodes := rfl
  kind := rfl
  names := h.allocate
  node? := fun _ => rfl
  found := fun _ _ hn => Index.mem_of_node?_build hn
  feeding? := fun _ => rfl
  isReader := h.isReader options
  ways := fun _ _ _ _ => ⟨rfl, fun _ _ => rfl⟩
  report := fun d hds => congrArg (·.report d) hds
  fanIn := by
    intro e e' n param he
    obtain rfl := he.eq
    exact ⟨_, rfl, rfl, rfl, rfl⟩

/-- **A compilation depends on the definitions of the nodes only.** -/
theorem compile_of_definedAlike (h : b.DefinedAlike catalog catalog') (options : Options)
    (time : String) : compile b catalog' options time = compile b catalog options time := by
  have hstart : (danglingReports (.of b catalog options)).Alike Eq
      (danglingReports (.of b catalog' options)) := ⟨rfl, rfl, rfl⟩
  exact (compile_alike (b := b) time (h.context options) hstart).eq

/-- The time shows in the header only. -/
theorem compile_of_untimed {options : Options} (h : options.headerTimestamp = false)
    (b : Blueprint) (catalog : Catalog) (time time' : String) :
    compile b catalog options time = compile b catalog options time' := by
  have hheader : headerLines b options time = headerLines b options time' := by
    rw [headerLines, headerLines, h]
    rfl
  rw [compile, compile]
  cases b.kind with
  | function =>
      dsimp only
      rw [FunctionUnit.lines, FunctionUnit.lines, hheader]
  | component =>
      dsimp only
      rw [ComponentUnit.lines, ComponentUnit.lines, hheader]

end Compiling

/-! ## Together and alone -/

/-- **What ids stand for when documents are compiled together**, by induction
    on the documents. -/
theorem Cli.find?_mergeAll (catalog : Catalog) (documents : List Document) (id : String) :
    (Cli.mergeAll catalog documents).find? id
      = (catalog.find? id).or (Definition.first? id (documents.flatMap Document.definitions)) := by
  rw [mergeAll]
  induction documents generalizing catalog with
  | nil => exact Option.or_none.symm
  | cons d rest ih =>
      -- the others are merged into what the first document leaves
      rw [List.foldl_cons, ih, Catalog.find?_merge, List.flatMap_cons, Definition.first?_append,
        Option.or_assoc]

namespace Document

/-- An id stands for the same whether a document is compiled alone or together
    with others: the catalog of the project has it, or its first definition in
    all documents is the first in this one. -/
def Undisputed (d : Document) (catalog : Catalog) (documents : List Document) (id : String) :
    Prop :=
  catalog.contains id = true
    ∨ Definition.first? id (documents.flatMap definitions) = Definition.first? id d.definitions

variable {d : Document} {catalog : Catalog} {documents : List Document}

/-- A document finds the same under an id, together with others and alone, exactly
    if the id is undisputed. -/
theorem find?_eq_iff_undisputed (d : Document) (catalog : Catalog) (documents : List Document)
    (id : String) :
    (Cli.mergeAll catalog documents).find? id = (catalog.merge d.definitions).2.find? id
      ↔ d.Undisputed catalog documents id := by
  rw [Undisputed, Cli.find?_mergeAll, Catalog.find?_merge, Catalog.contains_eq_isSome]
  cases catalog.find? id with
  | none => simp
  | some found => simp

/-- No document defines an id if none of them has a first definition of it. -/
theorem first?_eq_none_iff {id : String} :
    Definition.first? id (documents.flatMap definitions) = none
      ↔ ∀ d ∈ documents, Definition.first? id d.definitions = none := by
  simp only [Definition.first?, List.find?_eq_none, List.mem_flatMap]
  constructor
  · intro h d hd x hx
    exact h x ⟨d, hd, hx⟩
  · rintro h x ⟨d, hd, hx⟩
    exact h d hd x hx

/-- The first definition in all documents is that of an earlier one, else that
    of the document itself, else that of a later one. -/
theorem first?_split {i : Nat} (hd : documents[i]? = some d) (id : String) :
    Definition.first? id (documents.flatMap definitions)
      = (Definition.first? id ((documents.take i).flatMap definitions)).or
        ((Definition.first? id d.definitions).or
          (Definition.first? id ((documents.drop (i + 1)).flatMap definitions))) := by
  obtain ⟨hlt, hget⟩ := List.getElem?_eq_some_iff.1 hd
  have hsplit : documents = documents.take i ++ d :: documents.drop (i + 1) := by
    rw [← hget, List.getElem_cons_drop, List.take_append_drop]
  conv_lhs => rw [hsplit]
  rw [List.flatMap_append, List.flatMap_cons, Definition.first?_append, Definition.first?_append]

/-- An id that the document defines is disputed by the earlier documents that
    define it differently. -/
theorem undisputed_iff_of_own {i : Nat} (hd : documents[i]? = some d) {id : String}
    (hnew : catalog.contains id = false) {own : Definition}
    (hown : Definition.first? id d.definitions = some own) :
    d.Undisputed catalog documents id
      ↔ ∀ x, Definition.first? id ((documents.take i).flatMap definitions) = some x → x = own := by
  rw [Undisputed, hnew, first?_split hd, hown]
  cases Definition.first? id ((documents.take i).flatMap definitions) with
  | none => simp
  | some x => simp

/-- An id that the document does not define is disputed by all documents that
    define it. -/
theorem undisputed_iff_of_none {id : String} (hnew : catalog.contains id = false)
    (hown : Definition.first? id d.definitions = none) :
    d.Undisputed catalog documents id
      ↔ ∀ d' ∈ documents, Definition.first? id d'.definitions = none := by
  rw [Undisputed, hnew, hown, first?_eq_none_iff]
  simp

end Document

/-- **Documents compile together as they do alone**, if no time is told and the
    ids that their nodes use are undisputed.  These are the ids that stand for
    the same in both cases.  An id that the catalog of the project lacks is
    disputed by an earlier document that defines it differently, or, if the
    document itself does not define it, by any other that does. -/
theorem built_as_compiled_alone (catalog : Catalog) (documents : List Document)
    (options : Options) (htime : options.headerTimestamp = false) (time time' : String) {i : Nat}
    {d : Document} (hd : documents[i]? = some d) :
    let together := Cli.mergeAll catalog documents
    (∃ u, (compileProject (documents.map Document.blueprint) together options time).units[i]?
          = some u
        ∧ u.blueprintId = d.blueprint.id
        ∧ u.fileName = unitName d.blueprint options ++ ".ts"
        ∧ u.program = compile d.blueprint together options time
        ∧ ((∀ n ∈ d.blueprint.nodes, d.Undisputed catalog documents n.definitionId) →
          u.program = compileDocument d catalog options time'))
      ∧ (∀ id, together.find? id = (catalog.merge d.definitions).2.find? id
        ↔ d.Undisputed catalog documents id)
      ∧ ∀ id, catalog.contains id = false →
        (∀ own, Definition.first? id d.definitions = some own →
          (d.Undisputed catalog documents id ↔ ∀ x, Definition.first? id
            ((documents.take i).flatMap Document.definitions) = some x → x = own))
        ∧ (Definition.first? id d.definitions = none →
          (d.Undisputed catalog documents id
            ↔ ∀ d' ∈ documents, Definition.first? id d'.definitions = none)) := by
  intro together
  have hiff := d.find?_eq_iff_undisputed catalog documents
  refine ⟨⟨⟨d.blueprint.id, unitName d.blueprint options ++ ".ts",
    compile d.blueprint together options time⟩, ?_, rfl, rfl, rfl, ?_⟩, hiff, ?_⟩
  · rw [compileProject]
    dsimp only
    rw [List.getElem?_map, List.getElem?_map, hd]
    rfl
  · intro hundisputed
    -- neither the other definitions nor the time can be seen
    have hsame : d.blueprint.DefinedAlike (catalog.merge d.definitions).2 together :=
      fun n hn => (hiff n.definitionId).2 (hundisputed n hn)
    calc compile d.blueprint together options time
        = compile d.blueprint (catalog.merge d.definitions).2 options time :=
          compile_of_definedAlike hsame options time
      _ = compile d.blueprint (catalog.merge d.definitions).2 options time' :=
          compile_of_untimed htime _ _ time time'
  · intro id hnew
    constructor
    · intro own hown
      exact Document.undisputed_iff_of_own hd hnew hown
    · exact Document.undisputed_iff_of_none hnew

/-! ### Two documents that define one id -/

namespace Greetings

/-- A definition with one way on. -/
def greet (way : String) : Definition where
  id := "greet"
  name := "Greet"
  category := "Custom"
  inputs := [⟨"exec", "Exec", .exec, none, none, none, false⟩]
  outputs := [⟨way, "Then", .exec, none, none, none, false⟩]

/-- A greeting and then a print, by the way that the own definition has. -/
def document (name way : String) : Document where
  version := "1.0.0"
  name := name
  blueprint :=
    { name := name, kind := .function
      nodes := [⟨"begin", "function_start", "", {}, [], []⟩, ⟨"hello", "greet", "", {}, [], []⟩,
        ⟨"say", "print", "", {}, [], []⟩]
      connections := [⟨"c1", ⟨"begin", "exec"⟩, ⟨"hello", "exec"⟩⟩,
        ⟨"c2", ⟨"hello", way⟩, ⟨"say", "exec"⟩⟩] }
  definitions := [greet way]
  metadata := { createdAt := .epoch }

def documents : List Document := [document "A" "exec", document "B" "next"]

/-- The greeting is new to the palette, and the second document loses its print by
    the first one's definition. -/
theorem greet_new_and_print_lost :
    Catalog.builtin.contains "greet" = false
      ∧ (∀ n ∈ (document "A" "exec").blueprint.nodes,
        Catalog.builtin.contains n.definitionId = true ∨ n.definitionId = "greet")
      ∧ (compile (document "B" "next").blueprint (Cli.mergeAll .builtin documents) {} "").source
        ≠ (compileDocument (document "B" "next") .builtin {} "").source := by
  decide +kernel

/-- The first document compiles as it does alone; the second one has the
    greeting of the first, and its print is lost. -/
theorem first_as_alone_and_second_not :
    ∃ first second,
      (compileProject (documents.map Document.blueprint) (Cli.mergeAll .builtin documents) {}
        "").units = [first, second]
      ∧ first.program = compileDocument (document "A" "exec") .builtin {} "now"
      ∧ ¬(document "B" "next").Undisputed .builtin documents "greet"
      ∧ second.program.source ≠ (compileDocument (document "B" "next") .builtin {} "").source := by
  obtain ⟨hnew, hknown, hlost⟩ := greet_new_and_print_lost
  obtain ⟨⟨first, hfirst, -, -, -, halone⟩, -, hown⟩ :=
    built_as_compiled_alone .builtin documents {} rfl "" "now" (i := 0) rfl
  obtain ⟨⟨second, hsecond, -, -, hprogram, -⟩, -, hother⟩ :=
    built_as_compiled_alone .builtin documents {} rfl "" "now" (i := 1) rfl
  refine ⟨first, second, ?_, ?_, ?_, ?_⟩
  · obtain rfl := Option.some.inj hfirst
    obtain rfl := Option.some.inj hsecond
    rfl
  · refine halone fun n hn => ?_
    rcases hknown n hn with hbuiltin | hgreet
    · exact Or.inl hbuiltin
    · rw [hgreet]
      refine ((hown "greet" hnew).1 (greet "exec") rfl).2 ?_
      intro x hx
      cases hx
  · intro hundisputed
    have hsame := ((hother "greet" hnew).1 (greet "next") rfl).1 hundisputed (greet "exec") rfl
    exact absurd hsame (by decide)
  · rw [hprogram]
    exact hlost

end Greetings

end Blueprints
