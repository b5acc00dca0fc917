import Blueprints.Proofs.Code.Contents
import Blueprints.Proofs.Emit.Acts
import Blueprints.Proofs.Program.Degradation

/-! # Routines in the text of a unit

    The routines of a unit are written by acts from an empty routine
    (`moves_writeRoutine`, `moves_function`), so that what all acts keep holds
    of each of them (`forall_routines`).  Its lines stand in the text of the
    unit, right behind its header, and ahead of all headers stand the
    declarations of the variables (`exists_declarations`). -/

namespace Blueprints

open Arena Emission

/-! ## Written by acts -/

theorem opensAll_entrySteps (ctx : Context) (entries : List Node) (findings : Findings) :
    OpensAll ctx (entrySteps entries { findings }).1 (entrySteps entries { findings }).2 :=
  fun step hstep => placed_ofRoutine ctx entries findings (.visit step) (List.mem_map_of_mem hstep)

theorem moves_entrySteps (waits : Prop) (entries : List Node) (findings : Findings) :
    Moves waits { findings } (entrySteps entries { findings }).2 := by
  rw [entrySteps_eq]
  exact moves_spread _ Nat.zero_lt_one

/-- **A routine is written by acts.** -/
theorem moves_writeRoutine (ctx : Context) (entries : List Node) (findings : Findings) :
    Moves True { findings } (writeRoutine ctx entries findings) :=
  (moves_entrySteps True entries findings).trans
    (moves_walk (opensAll_entrySteps ctx entries findings))

/-- So is the body of a function, also where nothing starts it. -/
theorem moves_writeFunctionBody (ctx : Context) :
    Moves True { findings := danglingReports ctx } (writeFunctionBody ctx) := by
  rw [writeFunctionBody]
  split
  · exact Act.moves (.write Nat.zero_lt_one rfl)
  · exact moves_writeRoutine ..

/-- What comes ahead of a return is a report at most, and an empty line at most. -/
theorem moves_beforeReturn (waits : Prop) (ctx : Context) (n : Node) {e : Emission}
    (hroot : Arena.root < e.blocks.size) : Moves waits e (beforeReturn ctx n e) := by
  have hreported : ∀ message, Moves waits e
      (if (ctx.nodesOfKind .functionReturn).length > 1 then
        e.report .shapeAmbiguity n.id message else e) := by
    intro message
    split
    · exact Act.moves (.report ..)
    · exact .refl
  have hspaced : ∀ {e : Emission}, Arena.root < e.blocks.size → Moves waits e
      (if e.routine.blocks.isEmpty Arena.root then e else e.emit Arena.root .blank) := by
    intro e hroot
    split
    · exact .refl
    · exact Act.moves (.write hroot rfl)
  rw [beforeReturn]
  exact ((hreported _).trans (hspaced ((hreported _).lt_size hroot))).act (.goTo _)

/-- The return of a function is written by acts. -/
theorem moves_writeReturn (waits : Prop) (ctx : Context) {e : Emission}
    (hroot : Arena.root < e.blocks.size) : Moves waits e (writeReturn ctx e).2 := by
  cases hn : returnNode? ctx e.routine with
  | none =>
      rw [writeReturn, hn]
      exact .refl
  | some n =>
      cases htype : (ctx.source n "value").type? with
      | none =>
          rw [writeReturn, hn]
          dsimp only
          rw [htype]
          dsimp only
          split
          · exact Act.moves (.report ..)
          · exact .refl
      | some type =>
          have hbefore := moves_beforeReturn waits ctx n hroot
          have hread := hbefore.trans (moves_readInput waits ctx n "value" Arena.root _
            (hbefore.lt_size hroot))
          rw [writeReturn_of_value hn (by rw [htype]; exact Option.some_ne_none type)]
          exact hread.act (.write (hread.lt_size hroot) rfl)

/-- **A function is written by acts**, its return included. -/
theorem moves_function (ctx : Context) :
    Moves True { findings := danglingReports ctx } (writeReturn ctx (writeFunctionBody ctx)).2 :=
  (moves_writeFunctionBody ctx).trans
    (moves_writeReturn True ctx (root_lt_size_writeFunctionBody ctx))

/-- **What holds of all that is written by acts holds of the routines of a
    unit.** -/
theorem forall_routines {P : Routine → Prop}
    (h : ∀ (findings : Findings) (e : Emission), Moves True { findings } e → P e.routine)
    (ctx : Context) : ∀ r ∈ ctx.routines, P r := by
  intro r hr
  rw [Context.routines] at hr
  cases hkind : ctx.blueprint.kind with
  | function =>
      rw [hkind] at hr
      obtain rfl := List.mem_singleton.1 hr
      exact h _ _ (moves_function ctx)
  | component =>
      rw [hkind] at hr
      have hmethods := routines_methods ctx Hook.all (danglingReports ctx)
      obtain ⟨start, -, rfl⟩ := List.mem_map.1 (hmethods ▸ hr)
      exact h _ _ (moves_writeRoutine ctx start.1 start.2)

/-! ## What a routine shows -/

/-- A statement stands in a routine. -/
def Routine.Shows (r : Routine) (s : Statement) : Prop := r.blocks.Shows Arena.root s

/-- What is kept by writing lines and by reserving blocks is kept by acts. -/
theorem Emission.Moves.blocks_induction {P : Arena Statement → Prop}
    (hline : ∀ {a : Arena Statement} {block : Nat} (s : Statement), block < a.size → P a →
      P (a.line block s))
    (hreserve : ∀ {a : Arena Statement} {block : Nat} (place : Place), block < a.size → P a →
      P (a.reserve place block).2)
    {waits : Prop} {e e' : Emission} (h : Moves waits e e') (hbefore : P e.blocks) :
    P e'.blocks := by
  induction h with
  | refl => exact hbefore
  | act _ hact ih =>
      cases hact with
      | emit hblock hwait => exact hline _ hblock ih
      | reserve place hblock => exact hreserve place hblock ih
      | declare name type =>
          rw [blocks_declare]
          exact ih
      | _ => exact ih

/-- Acts keep all blocks under the root. -/
theorem Emission.Moves.rooted {waits : Prop} {e e' : Emission} (h : Moves waits e e')
    (hbefore : e.blocks.Rooted) : e'.blocks.Rooted :=
  h.blocks_induction (fun s _ hrooted => hrooted.line _ s)
    (fun place hblock hrooted => hrooted.reserve place hblock) hbefore

/-- **A routine shows all its lines**, whatever block they were put into. -/
theorem Emission.Moves.shows_iff_has {waits : Prop} {findings : Findings} {e : Emission}
    (h : Moves waits { findings } e) {s : Statement} :
    e.routine.Shows s ↔ e.blocks.Has s := by
  constructor
  · rintro ⟨x, i, -, hline⟩
    exact ⟨x, i, hline⟩
  · rintro ⟨x, i, hline⟩
    exact ⟨x, i, h.rooted rooted_new x (lt_size_of_getElem? hline), hline⟩

/-- **A routine shows what is written in any of its blocks.** -/
theorem shows_iff_has_of_mem_routines {ctx : Context} {r : Routine} (hr : r ∈ ctx.routines)
    {s : Statement} : r.Shows s ↔ r.blocks.Has s :=
  forall_routines (P := fun r => ∀ s, r.Shows s ↔ r.blocks.Has s)
    (fun _ _ hmoves _ => hmoves.shows_iff_has) ctx r hr s

theorem shows_of_mem_body {ctx : Context} {r : Routine} (hr : r ∈ ctx.routines) {s : Statement}
    {x : Nat} (h : .line s ∈ r.blocks.body x) : r.Shows s := by
  obtain ⟨i, hi⟩ := List.mem_iff_getElem?.1 h
  exact (shows_iff_has_of_mem_routines hr).2 ⟨x, i, hi⟩

/-- What a routine shows is one of its lines, at some depth. -/
theorem Routine.Shows.exists_mem_lines {r : Routine} {s : Statement} (h : r.Shows s)
    (unit : String) (depth : Nat) :
    ∃ deeper, Arena.indented unit deeper s.text ∈ r.lines unit depth := by
  obtain ⟨deeper, hmem⟩ := Arena.exists_mem_render Statement.text unit h depth
  refine ⟨deeper, ?_⟩
  rw [Routine.lines]
  split
  · exact List.mem_append_right _ hmem
  · exact List.mem_append_right _ (List.mem_cons_of_mem _ hmem)

/-! ## Routines in the text -/

/-- The line ahead of a routine: the signature of the function, or of a
    method. -/
def Routine.HeadedBy (r : Routine) (b : Blueprint) (options : Options) (analysis : Analysis)
    (line : String) : Prop :=
  match b.kind with
  | .function =>
    let parameters := ", ".intercalate (analysis.parameters.map Parameter.signature)
    line = if r.isAsync then
        "export async function " ++ unitName b options ++ "(" ++ parameters ++ "): "
          ++ ("Promise<" ++ analysis.returnType ++ ">") ++ " \x7b"
      else
        "export function " ++ unitName b options ++ "(" ++ parameters ++ "): "
          ++ analysis.returnType ++ " \x7b"
  | .component => ∃ (hook : Hook) (parameters : String),
    line = options.indentUnit ++ (if r.isAsync then "async " else "") ++ hook.name ++ "("
      ++ parameters ++ ") \x7b"

/-- A paragraph stands among the others as it is. -/
theorem infix_spacedLines {p : List String} {ps : List (List String)} (h : p ∈ ps) :
    p <:+: spacedLines ps := by
  induction ps with
  | nil => cases h
  | cons first rest ih =>
      cases rest with
      | nil =>
          obtain rfl := List.mem_singleton.1 h
          have hone : spacedLines [p] = p := List.intercalate_singleton
          exact hone.symm ▸ List.infix_refl p
      | cons second rest =>
          rw [spacedLines, List.intercalate_cons_cons]
          rcases List.mem_cons.1 h with rfl | hrest
          · rw [List.append_assoc]
            exact (List.prefix_append ..).isInfix
          · exact (ih hrest).trans (List.suffix_append ..).isInfix

/-- What is found while the routines of a unit are written. -/
def Context.findings (ctx : Context) : Findings :=
  match ctx.blueprint.kind with
  | .function => (FunctionUnit.build ctx).findings
  | .component => (ComponentUnit.build ctx).findings

/-- The declarations of the variables of a unit. -/
def Context.declarations (ctx : Context) : List Declaration :=
  variableDeclarations ctx.blueprint ctx.findings.variableNames

/-- Declarations as lines: in the module of a function, or as the fields of a
    component. -/
def BlueprintKind.declarationLines (kind : BlueprintKind) (unit : String)
    (ds : List Declaration) : List String :=
  match kind with
  | .function => ds.map FunctionUnit.declarationLine
  | .component => ds.map (ComponentUnit.fieldLine unit)

theorem exists_paragraph_eq (lines : List String) : ∃ gap, paragraph lines = lines ++ gap := by
  rw [paragraph]
  split
  · next hnone => exact ⟨[], by rw [List.isEmpty_iff.1 hnone]; rfl⟩
  · exact ⟨[""], rfl⟩

/-- The fields of a class stand ahead of each of its methods. -/
theorem exists_spacedLines_eq (fields : List String) {p : List String} {ps : List (List String)}
    (h : p ∈ ps) : ∃ between after,
      spacedLines ((if fields.isEmpty then [] else [fields]) ++ ps)
        = fields ++ between ++ p ++ after := by
  obtain ⟨before, after, hp⟩ := infix_spacedLines h
  cases fields with
  | nil => exact ⟨before, after, hp.symm⟩
  | cons field more =>
      cases ps with
      | nil => cases h
      | cons first rest =>
          refine ⟨"" :: before, after, ?_⟩
          show spacedLines ((field :: more) :: first :: rest) = _
          rw [spacedLines, List.intercalate_cons_cons]
          show field :: more ++ [""] ++ spacedLines (first :: rest) = _
          rw [← hp]
          simp only [List.append_assoc, List.cons_append, List.nil_append]

/-- **The lines of each routine stand in the text, behind its header**, and the
    declarations of all variables stand ahead of that. -/
theorem exists_declarations (b : Blueprint) (catalog : Catalog) (options : Options)
    (time : String) :
    ∀ r ∈ (Context.of b catalog options).routines, ∃ before between line depth after,
      (compile b catalog options time).source
          = textOfLines (before
            ++ b.kind.declarationLines options.indentUnit
              (Context.of b catalog options).declarations
            ++ between ++ line :: r.lines options.indentUnit depth ++ after)
        ∧ r.HeadedBy b options (compile b catalog options time).analysis line := by
  intro r hr
  have hblueprint : (Context.of b catalog options).blueprint = b := rfl
  rw [Context.routines, hblueprint] at hr
  rw [compile, Context.declarations, Context.findings, hblueprint]
  cases hkind : b.kind with
  | function =>
      rw [hkind] at hr
      obtain rfl := List.mem_singleton.1 hr
      let u := FunctionUnit.build (.of b catalog options)
      obtain ⟨gap, hgap⟩ := exists_paragraph_eq
        ((variableDeclarations b u.findings.variableNames).map FunctionUnit.declarationLine)
      refine ⟨headerLines b options time ++ helperLines options [] u.findings.helpers, gap,
        u.signatureLine (unitName b options), 1, ["\x7d"], ?_, ?_⟩
      · show textOfLines (u.lines b options time) = _
        rw [FunctionUnit.lines, hgap]
        simp only [List.append_assoc, List.cons_append, List.nil_append]
        rfl
      · rw [Routine.HeadedBy, hkind]
        dsimp only
        show u.signatureLine (unitName b options) = if u.routine.isAsync then _ else _
        rw [FunctionUnit.signatureLine]
        cases u.routine.isAsync with
        | true => rfl
        | false => rfl
  | component =>
      rw [hkind] at hr
      obtain ⟨m, hm, rfl⟩ := List.mem_map.1 hr
      let u := ComponentUnit.build (.of b catalog options)
      -- the lines of the method are one of the paragraphs of the class
      obtain ⟨between, after, hmembers⟩ := exists_spacedLines_eq
        ((variableDeclarations b u.findings.variableNames).map
          (ComponentUnit.fieldLine options.indentUnit))
        (List.mem_map_of_mem (f := ComponentUnit.methodLines options.indentUnit) hm)
      refine ⟨headerLines b options time
          ++ helperLines options ["import \x7b _decorator, Component \x7d from 'cc';"]
            u.findings.helpers
          ++ ["const \x7b ccclass \x7d = _decorator;", "",
            "@ccclass('" ++ unitName b options ++ "')",
            "export class " ++ unitName b options ++ " extends Component \x7b"],
        between, options.indentUnit ++ (if m.routine.isAsync then "async " else "")
        ++ m.hook.name ++ "(" ++ (if m.hook.takesDeltaTime then deltaTime ++ ": number" else "")
        ++ ") \x7b", 2, (options.indentUnit ++ "\x7d") :: after ++ ["\x7d"], ?_, ?_⟩
      · show textOfLines (u.lines b options time) = _
        rw [ComponentUnit.lines, hmembers, ComponentUnit.methodLines]
        simp only [List.append_assoc, List.cons_append, List.nil_append]
        rfl
      · rw [Routine.HeadedBy, hkind]
        exact ⟨m.hook, _, rfl⟩

/-- **Every routine stands in the source right behind its header.** -/
theorem exists_header (b : Blueprint) (catalog : Catalog) (options : Options) (time : String) :
    ∀ r ∈ (Context.of b catalog options).routines, ∃ before line depth after,
      (compile b catalog options time).source
          = textOfLines (before ++ line :: r.lines options.indentUnit depth ++ after)
        ∧ r.HeadedBy b options (compile b catalog options time).analysis line := by
  intro r hr
  obtain ⟨before, between, line, depth, after, hsource, hheader⟩ :=
    exists_declarations b catalog options time r hr
  exact ⟨_, line, depth, after, hsource, hheader⟩

end Blueprints
