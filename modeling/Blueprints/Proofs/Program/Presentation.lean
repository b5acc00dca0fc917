import Blueprints.Proofs.Code.Indentation
import Blueprints.Proofs.Program.Building

/-! # Presentation

    The options shape the text of a program and nothing else.  With any two
    option records the routines have the same code, that is the same members of
    blocks but for comments and empty lines (`Routine.SameCode`), and the same is
    found.  So the analysis and the diagnostics are the same.

    If the records differ in the indentation only, the routines are the same
    altogether, and the texts are aligned line by line. -/

namespace Blueprints

/-! ## Code -/

/-- Whether a member of a block is neither a comment nor an empty line. -/
def Item.isCode : Item Statement → Bool
  | .line (.comment _) => false
  | .line .blank => false
  | _ => true

/-- The code of a block. -/
def Arena.code (a : Arena Statement) (id : Nat) : List (Item Statement) :=
  (a.body id).filter Item.isCode

/-- A comment or an empty line is no code. -/
theorem Arena.code_line_of_note (a : Arena Statement) (block id : Nat) {s : Statement}
    (hs : Item.isCode (.line s) = false) : (a.line block s).code id = a.code id := by
  rw [code, code, body_line]
  split
  · next hid => rw [hid.1, List.filter_append, List.filter_singleton, hs]; simp
  · rfl

/-- Routines that differ in comments and empty lines only. -/
structure Routine.SameCode (r r' : Routine) : Prop where
  temporaries : r'.temporaries = r.temporaries
  locals : r'.locals = r.locals
  isAsync : r'.isAsync = r.isAsync
  returnNode : r'.returnNode = r.returnNode
  size : r'.blocks.size = r.blocks.size
  code : ∀ id, r'.blocks.code id = r.blocks.code id

namespace Routine.SameCode

variable {r r' r'' : Routine}

theorem refl (r : Routine) : r.SameCode r := ⟨rfl, rfl, rfl, rfl, rfl, fun _ => rfl⟩

theorem symm (h : r.SameCode r') : r'.SameCode r :=
  ⟨h.temporaries.symm, h.locals.symm, h.isAsync.symm, h.returnNode.symm, h.size.symm,
    fun id => (h.code id).symm⟩

theorem trans (h : r.SameCode r') (h' : r'.SameCode r'') : r.SameCode r'' :=
  ⟨h'.temporaries.trans h.temporaries, h'.locals.trans h.locals, h'.isAsync.trans h.isAsync,
    h'.returnNode.trans h.returnNode, h'.size.trans h.size,
    fun id => (h'.code id).trans (h.code id)⟩

/-- A comment or an empty line is no code. -/
theorem note (r : Routine) (block : Nat) {s : Statement} (hs : Item.isCode (.line s) = false) :
    r.SameCode { r with blocks := r.blocks.line block s } :=
  { refl r with
    size := Arena.size_line ..
    code := fun id => r.blocks.code_line_of_note block id hs }

/-- The same line keeps the code the same. -/
theorem line (h : r.SameCode r') (block : Nat) (s : Statement) :
    SameCode { r with blocks := r.blocks.line block s }
      { r' with blocks := r'.blocks.line block s } := by
  refine { h with size := ?_, code := ?_ }
  · rw [Arena.size_line, Arena.size_line, h.size]
  · intro id
    rw [Arena.code, Arena.code, Arena.body_line, Arena.body_line, h.size]
    split
    · rw [List.filter_append, List.filter_append]
      exact congrArg (· ++ _) (h.code block)
    · exact h.code id

/-- So does a block that is reserved at the same place. -/
theorem reserve (h : r.SameCode r') (place : Place) (block : Nat) :
    SameCode { r with blocks := (r.blocks.reserve place block).2 }
      { r' with blocks := (r'.blocks.reserve place block).2 } := by
  refine { h with size := ?_, code := ?_ }
  · rw [Arena.size_reserve, Arena.size_reserve, h.size]
  · intro id
    rw [Arena.code, Arena.code, Arena.body_reserve, Arena.body_reserve, h.size]
    split
    · rw [List.filter_append, List.filter_append]
      exact congrArg (· ++ _) (h.code block)
    · exact h.code id

/-- A declaration looks at the temporaries alone. -/
theorem declare (h : r.SameCode r') (name type : String) :
    (r.declare name type).SameCode (r'.declare name type) := by
  rw [Routine.declare, Routine.declare, Routine.declared, Routine.declared, h.temporaries]
  split
  · exact h
  · exact { h with temporaries := rfl }

/-- A new name is looked for among the names alone. -/
theorem newLocal (h : r.SameCode r') (wanted : String) :
    (r'.newLocal wanted).1 = (r.newLocal wanted).1
      ∧ (r.newLocal wanted).2.SameCode (r'.newLocal wanted).2 := by
  have hname : (r'.newLocal wanted).1 = (r.newLocal wanted).1 := by
    show unusedName (r'.locals ++ r'.temporaries.map Prod.fst) wanted = unusedName _ wanted
    rw [h.locals, h.temporaries]
    rfl
  refine ⟨hname, { h with locals := ?_ }⟩
  show (r'.newLocal wanted).1 :: r'.locals = (r.newLocal wanted).1 :: r.locals
  rw [hname, h.locals]

/-- The empty line ahead of a return. -/
theorem space (h : r.SameCode r') :
    SameCode
      (if r.blocks.isEmpty Arena.root then r
        else { r with blocks := r.blocks.line Arena.root .blank })
      (if r'.blocks.isEmpty Arena.root then r'
        else { r' with blocks := r'.blocks.line Arena.root .blank }) := by
  have hspaced : ∀ r : Routine, r.SameCode (if r.blocks.isEmpty Arena.root then r
      else { r with blocks := r.blocks.line Arena.root .blank }) := by
    intro r
    split
    · exact refl r
    · exact note r Arena.root rfl
  exact (hspaced r).symm.trans (h.trans (hspaced r'))

end Routine.SameCode

/-- The same code and findings. -/
def Likeness.code : Likeness where
  routines := Routine.SameCode
  findings := Eq
  new := .refl {}
  line := .line
  size := Routine.SameCode.size
  reserve := .reserve
  declare := .declare
  newLocal := Routine.SameCode.newLocal
  setAsync := fun h => { h with isAsync := rfl }
  returnNode := Routine.SameCode.returnNode
  noteReturn := fun h id => { h with returnNode := congrArg (·.or (some id)) h.returnNode }
  space := .space
  note := Likeness.same.note
  report := Likeness.same.report

/-- The comment ahead of a node is no code, and nothing is found in it. -/
theorem Emission.like_announce (e : Emission) (ctx : Context) (n : Node) (d : Definition)
    (kind : NodeKind) (block : Nat) : e.Like .code (e.announce ctx n d kind block) := by
  rw [announce]
  split
  · exact ⟨.note e.routine block rfl, rfl, rfl, rfl⟩
  · exact ⟨.refl e.routine, rfl, rfl, rfl⟩

/-- Comments are wanted or not; the code is the same. -/
theorem Context.corresponds_code (b : Blueprint) (catalog : Catalog) (options options' : Options) :
    (Context.of b catalog options).Corresponds .code (fun n => n) (.of b catalog options') := by
  refine corresponds_of_announce b catalog ?_
  intro e e' n d kind block he
  -- each side has the code that it had before its comment
  have h := e.like_announce (.of b catalog options) n d kind block
  have h' := e'.like_announce (.of b catalog options') n d kind block
  exact ⟨h.routine.symm.trans (he.routine.trans h'.routine),
    h.findings.symm.trans (he.findings.trans h'.findings),
    h'.path.trans (he.path.trans h.path.symm), h'.fresh.trans (he.fresh.trans h.fresh.symm)⟩

/-! ## What is known of a program -/

theorem FunctionUnit.Like.analysis {u u' : FunctionUnit} (h : u.Like .code u') :
    u'.analysis = u.analysis := by
  have hfindings : u.findings = u'.findings := h.findings
  rw [FunctionUnit.analysis, FunctionUnit.analysis, h.parameters, h.returnType, hfindings,
    h.routine.isAsync]

theorem ComponentUnit.Like.analysis {u u' : ComponentUnit} (h : u.Like .code u') :
    u'.analysis = u.analysis := by
  have hfindings : u.findings = u'.findings := h.findings
  have hasync : ∀ {ms ms' : List Method}, List.Forall₂ (Method.Like .code) ms ms' →
      ms'.any (·.routine.isAsync) = ms.any (·.routine.isAsync) := by
    intro ms ms' hms
    induction hms with
    | nil => rfl
    | cons hm _ ih => rw [List.any_cons, List.any_cons, ih, hm.routine.isAsync]
  rw [ComponentUnit.analysis, ComponentUnit.analysis, hfindings, hasync h.methods]

/-! ## Texts of a unit -/

section Texts

variable (b : Blueprint) (options : Options) (k : Nat) (time : String)

/-- **The lines of a function are aligned**, whatever a level is indented by. -/
theorem FunctionUnit.aligned_lines (u : FunctionUnit) :
    List.Forall₂ Aligned (u.lines b options time) (u.lines b { options with indent := k } time) := by
  rw [lines, lines]
  refine List.rel_append (List.rel_append (Aligned.refl_all _) ?_) (Aligned.refl_all _)
  exact u.routine.aligned_lines options.indent k 1

theorem ComponentUnit.aligned_fieldLine (k k' : Nat) (d : Declaration) :
    Aligned (fieldLine (spaces k) d) (fieldLine (spaces k') d) := by
  simp only [fieldLine, String.append_assoc]
  exact .after ..

theorem ComponentUnit.aligned_methodLines (k k' : Nat) (m : Method) :
    List.Forall₂ Aligned (methodLines (spaces k) m) (methodLines (spaces k') m) := by
  simp only [methodLines, String.append_assoc]
  refine List.rel_append (List.rel_append ?_ (m.routine.aligned_lines k k' 2)) ?_
  · exact .cons (.after ..) .nil
  · exact .cons (.after ..) .nil

/-- Paragraphs that are aligned stay so with empty lines between them. By induction
    on the paragraphs. -/
theorem aligned_spacedLines {ps ps' : List (List String)}
    (h : List.Forall₂ (List.Forall₂ Aligned) ps ps') :
    List.Forall₂ Aligned (spacedLines ps) (spacedLines ps') := by
  induction h with
  | nil => exact .nil
  | cons hfirst hrest ih =>
      cases hrest with
      | nil =>
          rw [spacedLines, spacedLines, List.intercalate_singleton, List.intercalate_singleton]
          exact hfirst
      | cons hnext hmore =>
          rw [spacedLines, spacedLines, List.intercalate_cons_cons, List.intercalate_cons_cons]
          exact List.rel_append (List.rel_append hfirst (Aligned.refl_all _)) ih

/-- **The lines of a component are aligned**, whatever a level is indented by. -/
theorem ComponentUnit.aligned_lines (u : ComponentUnit) :
    List.Forall₂ Aligned (u.lines b options time) (u.lines b { options with indent := k } time) := by
  have hfields : List.Forall₂ Aligned
      ((variableDeclarations b u.findings.variableNames).map (fieldLine (spaces options.indent)))
      ((variableDeclarations b u.findings.variableNames).map (fieldLine (spaces k))) := by
    rw [List.forall₂_map_left_iff, List.forall₂_map_right_iff]
    exact List.forall₂_same.2 fun d _ => aligned_fieldLine _ _ d
  have hmethods : List.Forall₂ (List.Forall₂ Aligned)
      (u.methods.map (methodLines (spaces options.indent)))
      (u.methods.map (methodLines (spaces k))) := by
    rw [List.forall₂_map_left_iff, List.forall₂_map_right_iff]
    exact List.forall₂_same.2 fun m _ => aligned_methodLines _ _ m
  rw [lines, lines]
  refine List.rel_append (List.rel_append (Aligned.refl_all _) ?_) (Aligned.refl_all _)
  refine aligned_spacedLines (List.rel_append ?_ hmethods)
  simp only [List.isEmpty_map]
  split
  · exact .nil
  · exact .cons hfields .nil

/-- Aligned lines are the same texts without the spaces at their starts. -/
theorem flushLines_textOfLines {ls ls' : List String} (h : List.Forall₂ Aligned ls ls') :
    flushLines (textOfLines ls) = flushLines (textOfLines ls') := by
  -- the end of the last line makes one more, which is empty
  have hended : ∀ text : String, flushLines (text ++ "\n") = flushLines text ++ flushLines "" := by
    intro text
    rw [← flushLines_append, String.append_empty]
  rw [textOfLines, textOfLines, hended, hended, flushLines_intercalate h]

end Texts

/-! ## Programs -/

section Programs

variable (b : Blueprint) (catalog : Catalog)

/-- What is known of a program is the same with any options, at any time. -/
theorem compile_known_eq (options options' : Options) (time time' : String) :
    (compile b catalog options' time').analysis = (compile b catalog options time).analysis
      ∧ (compile b catalog options' time').diagnostics
        = (compile b catalog options time).diagnostics := by
  have hcode := Context.corresponds_code b catalog options options'
  rw [compile, compile]
  cases b.kind with
  | function =>
      have hunit := FunctionUnit.like_build hcode rfl
      exact ⟨hunit.analysis, congrArg Findings.diagnostics hunit.findings.symm⟩
  | component =>
      have hunit := ComponentUnit.like_build hcode rfl
      exact ⟨hunit.analysis, congrArg Findings.diagnostics hunit.findings.symm⟩

/-- The lines of a program are the same with any indentation, when the spaces
    at their starts are dropped. -/
theorem flushLines_compile (options : Options) (k : Nat) (time : String) :
    flushLines (compile b catalog options time).source
      = flushLines (compile b catalog { options with indent := k } time).source := by
  have hsame := Context.corresponds_of_nodeComments .same b catalog options
    { options with indent := k } rfl
  rw [compile, compile]
  cases b.kind with
  | function =>
      dsimp only
      rw [(FunctionUnit.like_build hsame rfl).eq]
      exact flushLines_textOfLines (FunctionUnit.aligned_lines b options k time _)
  | component =>
      dsimp only
      rw [(ComponentUnit.like_build hsame rfl).eq]
      exact flushLines_textOfLines (ComponentUnit.aligned_lines b options k time _)

end Programs

/-- **Options shape the text alone.**  With any two option records, at any two
    times, a blueprint has the same analysis and the same diagnostics; and if
    the records differ in the indentation only and tell no time, the two texts
    have the same lines after the spaces at their starts. -/
theorem options_keep_meaning (b : Blueprint) (catalog : Catalog) (options options' : Options)
    (time time' : String) :
    (compile b catalog options' time').analysis = (compile b catalog options time).analysis
      ∧ (compile b catalog options' time').diagnostics
        = (compile b catalog options time).diagnostics
      ∧ (options.headerTimestamp = false → options' = { options with indent := options'.indent } →
        flushLines (compile b catalog options' time').source
          = flushLines (compile b catalog options time).source) := by
  obtain ⟨hanalysis, hdiagnostics⟩ := compile_known_eq b catalog options options' time time'
  refine ⟨hanalysis, hdiagnostics, ?_⟩
  intro htime hindent
  rw [compile_of_untimed htime b catalog time time', hindent]
  exact (flushLines_compile b catalog options options'.indent time').symm

/-! ### A component in three presentations -/

namespace Presented

/-- A component that waits before it prints; its name has two lines. -/
def waiting : Blueprint where
  name := "Wait\n  and see"
  nodes := [⟨"begin", "start", "", {}, [], []⟩, ⟨"wait", "delay", "", {}, [], []⟩,
    ⟨"say", "print", "", {}, [], []⟩]
  connections := [⟨"c1", ⟨"begin", "exec"⟩, ⟨"wait", "exec"⟩⟩,
    ⟨"c2", ⟨"wait", "exec"⟩, ⟨"say", "exec"⟩⟩, ⟨"c3", ⟨"gone", "exec"⟩, ⟨"say", "exec"⟩⟩]

def narrow : Options := { indent := 1 }

def bare : Options :=
  { helperMode := .inlined, functionPrefix := "", indent := 8, nodeComments := false,
    headerTimestamp := true }

/-- The component waits, calls helpers and reports something, and its text depends
    on the indentation, by evaluation. -/
theorem waits_calls_and_reports :
    (compile waiting .builtin {} "").analysis.isAsync = true
      ∧ (compile waiting .builtin {} "").analysis.helpers ≠ []
      ∧ (compile waiting .builtin {} "").diagnostics ≠ []
      ∧ (compile waiting .builtin narrow "").source ≠ (compile waiting .builtin {} "").source := by
  decide +kernel

/-- The program is the same in other words, and the lines are the same where
    they start elsewhere. -/
theorem waiting_in_other_words :
    (compile waiting .builtin bare "now").analysis.isAsync = true
      ∧ (compile waiting .builtin bare "now").analysis.helpers ≠ []
      ∧ (compile waiting .builtin bare "now").diagnostics ≠ []
      ∧ (compile waiting .builtin narrow "").source ≠ (compile waiting .builtin {} "").source
      ∧ flushLines (compile waiting .builtin narrow "now").source
        = flushLines (compile waiting .builtin {} "").source := by
  obtain ⟨hasync, hhelpers, hreports, htext⟩ := waits_calls_and_reports
  obtain ⟨hanalysis, hdiagnostics, -⟩ := options_keep_meaning waiting .builtin {} bare "" "now"
  obtain ⟨-, -, hlines⟩ := options_keep_meaning waiting .builtin {} narrow "" "now"
  rw [hanalysis, hdiagnostics]
  exact ⟨hasync, hhelpers, hreports, htext, hlines rfl rfl⟩

end Presented

end Blueprints
