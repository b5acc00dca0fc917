import Mathlib.Data.List.Forall2
import Blueprints.Proofs.Emit.Comments
import Blueprints.Proofs.Program.Calls
import Blueprints.Proofs.Program.UnitFiles
import Blueprints.Proofs.Text.Comments

/-! # Quoted texts in comments

    The header of a unit quotes the name of the blueprint, and the comment for a
    node quotes its id, or the id or the name of its definition.  The texts are
    quoted as they are.  So a comment holds what it quotes exactly if that has no
    mark at which a reader leaves the comment, and behind such a mark the text is
    code (`comments_hold_exactly_unmarked_texts`). -/

namespace Blueprints

open Arena Emission

/-! ## Lines of a text -/

/-- A text of lines is the lines, each with its end. -/
theorem textOfLines_eq_join {ls : List String} (h : ls ≠ []) :
    textOfLines ls = String.join (ls.map (· ++ "\n")) := by
  induction ls with
  | nil => exact absurd rfl h
  | cons l rest ih =>
      rw [List.map_cons, String.join_cons]
      cases rest with
      | nil => rw [textOfLines, String.intercalate_singleton, List.map_nil, String.join_nil,
          String.append_empty]
      | cons next more =>
          rw [← ih (List.cons_ne_nil next more), textOfLines, String.intercalate_cons_cons,
            String.append_assoc]
          rfl

/-- A text has a comment: behind some lines and some indentation, with the end
    of a line after it and `after` behind that. -/
def HasComment (source unit t after : String) : Prop :=
  ∃ (before : List String) (depth : Nat),
    source = String.join (before.map (· ++ "\n"))
      ++ (String.join (List.replicate depth unit) ++ ("// " ++ (t ++ ("\n" ++ after))))

/-- A comment of a routine stands in the source, on a line of its own. -/
theorem exists_hasComment (b : Blueprint) (catalog : Catalog) (options : Options)
    (time : String) {r : Routine} (hr : r ∈ (Context.of b catalog options).routines) {t : String}
    (hs : r.Shows (.comment t)) :
    ∃ after, HasComment (compile b catalog options time).source options.indentUnit t after := by
  obtain ⟨before, depth, after, hsource⟩ := exists_line_of_shows b catalog options time hr hs
  have htext : Arena.indented options.indentUnit depth (Statement.comment t).text
      = String.join (List.replicate depth options.indentUnit) ++ ("// " ++ t) :=
    if_neg (by show ¬("// " ++ t).isEmpty = true; simp)
  refine ⟨String.join (after.map (· ++ "\n")), before, depth, ?_⟩
  rw [hsource, textOfLines_eq_join (List.append_ne_nil_of_right_ne_nil _ (List.cons_ne_nil _ _)),
    List.map_append, List.map_cons, String.join_append, String.join_cons, htext]
  simp only [String.append_assoc]

/-! ## The header -/

/-- The lines of the header between the first and the last. -/
def headerBody (b : Blueprint) (options : Options) (time : String) : List String :=
  (" * Generated from blueprint: " ++ b.name)
    :: (if options.headerTimestamp then [" * Generated at: " ++ time] else [])
    ++ [" * Compiled with BGC (Blueprint Graph Compiler)",
      " * Auto-generated - do not modify manually"]

/-- What stands between the mark that opens the header and the one that closes
    it in its last line. -/
def headerText (b : Blueprint) (options : Options) (time : String) : String :=
  "*\n" ++ (String.join ((headerBody b options time).map (· ++ "\n")) ++ " ")

theorem headerLines_eq (b : Blueprint) (options : Options) (time : String) :
    headerLines b options time = "/**" :: headerBody b options time ++ [" */", ""] := by
  delta headerLines headerBody
  simp only [List.append_assoc, List.cons_append, List.nil_append]

/-- The source begins with the comment of the header. -/
theorem exists_source_headerText (b : Blueprint) (catalog : Catalog) (options : Options)
    (time : String) : ∃ behind, (compile b catalog options time).source
      = "/*" ++ (headerText b options time ++ ("*/" ++ behind)) := by
  obtain ⟨more, hsource⟩ := exists_source_header b catalog options time
  refine ⟨"\n\n" ++ String.join (more.map (· ++ "\n")), ?_⟩
  rw [hsource, headerLines_eq, textOfLines_eq_join (by simp), List.map_append, List.map_append,
    List.map_cons, String.join_append, String.join_append, String.join_cons]
  delta headerText
  simp only [String.append_assoc]
  rfl

/-- **The header is closed early exactly if a text that it quotes closes it.** Its
    own lines hold no mark, and none arises where they meet. -/
theorem closes_headerText_iff (b : Blueprint) (options : Options) (time : String) :
    Text.Closes (headerText b options time).toList
      ↔ Text.Closes b.name.toList ∨ options.headerTimestamp = true ∧ Text.Closes time.toList := by
  have hname : Text.Closes (" * Generated from blueprint: " ++ b.name).toList
      ↔ Text.Closes b.name.toList := by
    rw [String.toList_append]
    exact Text.closes_append_of_clean (by decide) (by decide)
  have htime : Text.Closes (" * Generated at: " ++ time).toList ↔ Text.Closes time.toList := by
    rw [String.toList_append]
    exact Text.closes_append_of_clean (by decide) (by decide)
  have hnote : ¬Text.Closes " * Compiled with BGC (Blueprint Graph Compiler)".toList :=
    Text.not_closes_of_not_mem (by decide)
  have hwarning : ¬Text.Closes " * Auto-generated - do not modify manually".toList :=
    Text.not_closes_of_not_mem (by decide)
  have hbody : (∃ l ∈ headerBody b options time, Text.Closes l.toList)
      ↔ Text.Closes b.name.toList ∨ options.headerTimestamp = true ∧ Text.Closes time.toList := by
    delta headerBody
    cases options.headerTimestamp with
    | true => simp only [if_true, List.cons_append, List.nil_append, List.mem_cons,
        List.not_mem_nil, or_false, exists_eq_or_imp, exists_eq_left, hname, htime, hnote, hwarning,
        true_and]
    | false => simp only [Bool.false_eq_true, if_false, List.cons_append, List.nil_append,
        List.mem_cons, List.not_mem_nil, or_false, exists_eq_or_imp, exists_eq_left, hname, hnote,
        hwarning, false_and]
  rw [← hbody, ← Text.closes_lines_iff]
  delta headerText
  rw [String.toList_append, Text.closes_append_of_clean (by decide) (by decide),
    String.toList_append, Text.closes_append_iff]
  simp [Text.closes_cons_iff, Text.not_closes_nil]

/-- The name stands in the header behind a text without a mark. -/
theorem exists_headerText_eq (b : Blueprint) (options : Options) (time : String) :
    ∃ rest, (headerText b options time).toList
      = "*\n * Generated from blueprint: ".toList ++ (b.name.toList ++ rest) := by
  delta headerText headerBody
  simp only [List.cons_append, List.map_cons, String.join_cons, String.toList_append,
    List.append_assoc]
  exact ⟨_, rfl⟩

/-- **The header is left at the first mark**: at its own, exactly if what it
    quotes has none, and else within what it quotes. -/
theorem header_left_at_first_mark (b : Blueprint) (options : Options) (time : String)
    (behind : String) :
    (Text.behindBlock? (headerText b options time ++ ("*/" ++ behind)).toList = some behind.toList
        ↔ ¬Text.Closes b.name.toList
          ∧ (options.headerTimestamp = true → ¬Text.Closes time.toList))
      ∧ ∀ u v, b.name.toList = u ++ '*' :: '/' :: v → ¬Text.Closes u → ∃ rest,
        Text.behindBlock? (headerText b options time ++ ("*/" ++ behind)).toList
          = some (v ++ rest) := by
  rw [String.toList_append, String.toList_append]
  refine ⟨(Text.behindBlock?_eq_iff _ _).trans ?_, fun u v hname hu => ?_⟩
  · rw [closes_headerText_iff, not_or, not_and]
  · obtain ⟨rest, htext⟩ := exists_headerText_eq b options time
    have hfront : ¬Text.Closes ("*\n * Generated from blueprint: ".toList ++ u) := by
      rwa [Text.closes_append_of_clean (by decide) (by decide)]
    refine ⟨rest ++ ("*/".toList ++ behind.toList), ?_⟩
    rw [htext, hname]
    simp only [List.append_assoc, List.cons_append]
    rw [← List.append_assoc]
    exact Text.behindBlock?_append hfront _

/-! ## Comments for nodes -/

/-- A comment for a node has the line breaks of what it quotes and no others. -/
theorem NodeComment.breaksLine_text (c : NodeComment) :
    Text.breaksLine c.text = c.quoted.any Text.breaksLine := by
  have hquoted : ∀ {front : String} (x : String), Text.breaksLine front = false →
      Text.breaksLine (front ++ x) = [x].any Text.breaksLine := by
    intro front x hfront
    rw [Text.breaksLine_append, hfront, Bool.false_or, List.any_cons, List.any_nil, Bool.or_false]
  cases c with
  | unknown definition => exact hquoted definition (by decide)
  | unsupported definition => exact hquoted definition (by decide)
  | named name id =>
      have hopen : Text.breaksLine " (" = false := by decide
      have hclose : Text.breaksLine ")" = false := by decide
      show Text.breaksLine (name ++ " (" ++ id ++ ")") = [name, id].any Text.breaksLine
      rw [Text.breaksLine_append, Text.breaksLine_append, Text.breaksLine_append, hopen, hclose]
      simp

/-! ## Routines -/

section Routines

variable (ctx : Context) (entries : List Node) (findings : Findings)

theorem comments_new : ({ findings } : Emission).comments = ∅ :=
  Set.eq_empty_of_forall_notMem fun _ => not_has_new

/-- **The comments of a routine are those of the nodes that it visits.** -/
theorem comments_writeRoutine :
    (writeRoutine ctx entries findings).comments
      = {t | ∃ v ∈ ctx.visitsFrom (entries, findings), ∃ c ∈ ctx.comment? v.2, c.text = t} := by
  have hentries : (entrySteps entries { findings }).2.comments = ∅ := by
    rw [entrySteps_eq, uncoded_comments.spread, comments_new]
  refine (comments_walk (opensAll_entrySteps ctx entries findings)).trans ?_
  rw [hentries, Set.empty_union]
  rfl

/-- The return of a function has no comment. -/
theorem comments_writeReturn (e : Emission) : (writeReturn ctx e).2.comments = e.comments := by
  cases hn : returnNode? ctx e.routine with
  | none => rw [writeReturn, hn]
  | some n =>
      cases htype : (ctx.source n "value").type? with
      | none =>
          rw [writeReturn, hn]
          dsimp only
          rw [htype]
          dsimp only
          split
          · rfl
          · rfl
      | some type =>
          have hspaced : ∀ e : Emission, (if e.routine.blocks.isEmpty Arena.root then e
              else e.emit Arena.root .blank).comments = e.comments := by
            intro e
            split
            · rfl
            · exact uncoded_comments.emit _ _ _ rfl
          have hbefore : (beforeReturn ctx n e).comments = e.comments := by
            rw [beforeReturn]
            refine (hspaced _).trans ?_
            split
            · rfl
            · rfl
          rw [writeReturn_of_value hn (by rw [htype]; exact Option.some_ne_none type)]
          exact (uncoded_comments.emit _ _ _ rfl).trans
            ((comments_readInput "value" _).trans hbefore)

end Routines

/-- The comments that a routine shows: one for each visit of a node that has
    one, and one where nothing starts.  A line breaks in one of them exactly if
    it does in a text that is quoted for a visited node. -/
structure Context.CommentsOn (ctx : Context) (start : List Node × Findings) (r : Routine) :
    Prop where
  shown : ∀ t, r.Shows (.comment t)
    ↔ (∃ v ∈ ctx.visitsFrom start, ∃ c ∈ ctx.comment? v.2, c.text = t)
      ∨ start.1 = [] ∧ t = "No start node found"
  broken : (∃ t, r.Shows (.comment t) ∧ Text.breaksLine t = true)
    ↔ ∃ v ∈ ctx.visitsFrom start, ∃ c ∈ ctx.comment? v.2, ∃ x ∈ c.quoted,
      Text.breaksLine x = true

/-- A line breaks in a comment if it does in a text that is quoted: the words around
    it have no break. -/
theorem Context.CommentsOn.of_shown {ctx : Context} {start : List Node × Findings} {r : Routine}
    (shown : ∀ t, r.Shows (.comment t)
      ↔ (∃ v ∈ ctx.visitsFrom start, ∃ c ∈ ctx.comment? v.2, c.text = t)
        ∨ start.1 = [] ∧ t = "No start node found") : ctx.CommentsOn start r := by
  refine ⟨shown, ?_⟩
  constructor
  · rintro ⟨t, hshows, hbreak⟩
    rcases (shown t).1 hshows with ⟨v, hv, c, hc, rfl⟩ | ⟨-, rfl⟩
    · rw [c.breaksLine_text, List.any_eq_true] at hbreak
      exact ⟨v, hv, c, hc, hbreak⟩
    · exact absurd hbreak (by decide)
  · rintro ⟨v, hv, c, hc, hquoted⟩
    refine ⟨c.text, (shown c.text).2 (Or.inl ⟨v, hv, c, hc, rfl⟩), ?_⟩
    rw [c.breaksLine_text, List.any_eq_true]
    exact hquoted

/-- A method has the comments of its visits. -/
theorem commentsOn_method (ctx : Context) {start : List Node × Findings} (h : start.1 ≠ []) :
    ctx.CommentsOn start (writeRoutine ctx start.1 start.2).routine := by
  refine .of_shown fun t => ?_
  rw [(moves_writeRoutine ctx start.1 start.2).shows_iff_has]
  show t ∈ (writeRoutine ctx start.1 start.2).comments ↔ _
  rw [comments_writeRoutine]
  exact (or_iff_left fun hnone => h hnone.1).symm

/-- A function has the comments of its visits, and one more where nothing starts
    it. -/
theorem commentsOn_function (ctx : Context) :
    ctx.CommentsOn (ctx.blueprint.nodes.filter ctx.isFunctionEntry, danglingReports ctx)
      (FunctionUnit.build ctx).routine := by
  refine .of_shown fun t => ?_
  show (writeReturn ctx (writeFunctionBody ctx)).2.routine.Shows (.comment t) ↔ _
  rw [(moves_function ctx).shows_iff_has]
  show t ∈ (writeReturn ctx (writeFunctionBody ctx)).2.comments ↔ _
  rw [comments_writeReturn, writeFunctionBody]
  cases ctx.blueprint.nodes.filter ctx.isFunctionEntry with
  | nil =>
      have hnone : ctx.visitsFrom ([], danglingReports ctx) = [] := by
        rw [Context.visitsFrom, entrySteps]
        dsimp only
        rw [visits]
      dsimp only
      rw [comments_comment _ Nat.zero_lt_one, comments_new, hnone]
      simp
  | cons entry rest =>
      show t ∈ (writeRoutine ctx (entry :: rest) (danglingReports ctx)).comments ↔ _
      rw [comments_writeRoutine]
      exact (or_iff_left fun hnone => List.cons_ne_nil entry rest hnone.1).symm

/-- A method starts somewhere. -/
theorem ne_nil_of_mem_methodStarts {ctx : Context} {hooks : List Hook} {findings : Findings}
    {start : List Node × Findings} (h : start ∈ methodStarts ctx hooks findings) :
    start.1 ≠ [] := by
  induction hooks generalizing findings with
  | nil => cases h
  | cons hook rest ih =>
      rw [methodStarts] at h
      cases hentries : hookEntries ctx hook with
      | nil =>
          rw [hentries] at h
          exact ih h
      | cons entry others =>
          rw [hentries] at h
          rcases List.mem_cons.1 h with rfl | hrest
          · exact List.cons_ne_nil entry others
          · exact ih hrest

/-- **Which comments the routines of a unit show.** -/
theorem commentsOn_routines (ctx : Context) :
    List.Forall₂ ctx.CommentsOn ctx.starts ctx.routines := by
  rw [Context.starts, Context.routines]
  cases ctx.blueprint.kind with
  | function => exact .cons (commentsOn_function ctx) .nil
  | component =>
      dsimp only
      rw [ComponentUnit.build]
      dsimp only
      rw [routines_methods, List.forall₂_map_right_iff]
      exact List.forall₂_same.2 fun start hstart =>
        commentsOn_method ctx (ne_nil_of_mem_methodStarts hstart)

/-- **A comment for a node is left at the first line break**: with its line,
    exactly if its text has none, and else within its text. -/
theorem comment_left_at_first_break (t after : String) :
    (Text.behindLine ("// " ++ (t ++ ("\n" ++ after))).toList = ("\n" ++ after).toList
        ↔ Text.breaksLine t = false)
      ∧ ∀ u c v, t.toList = u ++ c :: v → u.any Text.isLineBreak = false →
        Text.isLineBreak c = true →
        Text.behindLine ("// " ++ (t ++ ("\n" ++ after))).toList
          = c :: (v ++ ("\n" ++ after).toList) := by
  have hfront : "// ".toList.any Text.isLineBreak = false := by decide
  rw [String.toList_append, String.toList_append]
  refine ⟨?_, fun u c v htext hu hc => ?_⟩
  · have hends := Text.behindLine_eq_iff ("// ".toList ++ t.toList) after.toList
    rw [List.append_assoc, List.any_append, hfront, Bool.false_or] at hends
    rw [String.toList_append]
    exact hends
  · have hclean : ("// ".toList ++ u).any Text.isLineBreak = false := by
      rw [List.any_append, hfront, hu]
      rfl
    rw [htext, List.append_assoc, List.cons_append, ← List.append_assoc]
    exact Text.behindLine_append hclean hc

/-- **Comments hold exactly the texts without a mark.**  A unit starts with its
    header, which a reader leaves in its last line exactly if the name of the
    blueprint has no `*/` in it, and nor has the time if it is told; else the
    reader leaves it within the name, and what follows there is code.  The
    comments of each routine are those for the nodes that it visits.  Each of
    them stands on a line of its own behind some indentation, and a reader leaves
    it with its line exactly if it has no line break; else what follows the first
    one is code.  It has one exactly if a text has one that it quotes: the id or
    the name of a definition, or the id of a node. -/
theorem comments_hold_exactly_unmarked_texts (b : Blueprint) (catalog : Catalog)
    (options : Options) (time : String) :
    headerLines b options time = "/**" :: headerBody b options time ++ [" */", ""]
      ∧ (∃ behind, (compile b catalog options time).source
          = "/*" ++ (headerText b options time ++ ("*/" ++ behind))
        ∧ (Text.behindBlock? (headerText b options time ++ ("*/" ++ behind)).toList
            = some behind.toList
          ↔ ¬Text.Closes b.name.toList
            ∧ (options.headerTimestamp = true → ¬Text.Closes time.toList))
        ∧ ∀ u v, b.name.toList = u ++ '*' :: '/' :: v → ¬Text.Closes u → ∃ rest,
          Text.behindBlock? (headerText b options time ++ ("*/" ++ behind)).toList
            = some (v ++ rest))
      ∧ List.Forall₂ (Context.of b catalog options).CommentsOn
        (Context.of b catalog options).starts (Context.of b catalog options).routines
      ∧ ∀ r ∈ (Context.of b catalog options).routines, ∀ t, r.Shows (.comment t) →
        ∃ after, HasComment (compile b catalog options time).source options.indentUnit t after
          ∧ (Text.behindLine ("// " ++ (t ++ ("\n" ++ after))).toList = ("\n" ++ after).toList
            ↔ Text.breaksLine t = false)
          ∧ ∀ u c v, t.toList = u ++ c :: v → u.any Text.isLineBreak = false →
            Text.isLineBreak c = true →
            Text.behindLine ("// " ++ (t ++ ("\n" ++ after))).toList
              = c :: (v ++ ("\n" ++ after).toList) := by
  refine ⟨headerLines_eq b options time, ?_, commentsOn_routines _, fun r hr t hshows => ?_⟩
  · obtain ⟨behind, hsource⟩ := exists_source_headerText b catalog options time
    exact ⟨behind, hsource, header_left_at_first_mark b options time behind⟩
  · obtain ⟨after, hline⟩ := exists_hasComment b catalog options time hr hshows
    exact ⟨after, hline, comment_left_at_first_break t after⟩

/-! ### A name and an id with marks -/

namespace MarkedTexts

/-- A function that prints and goes on to a node that is not known. -/
def injecting : Blueprint where
  name := "A*/B"
  kind := .function
  nodes := [⟨"begin", "function_start", "", {}, [], []⟩, ⟨"p", "print", "", {}, [], []⟩,
    ⟨"odd", "x\nlog(1);", "", {}, [], []⟩]
  connections := [⟨"c1", ⟨"begin", "exec"⟩, ⟨"p", "exec"⟩⟩, ⟨"c2", ⟨"p", "exec"⟩, ⟨"odd", "exec"⟩⟩]

theorem both_comments_written :
    (Context.of injecting .builtin {}).routines.any (fun r =>
      (r.blocks.body 1).contains (.line (.comment "Print (p)"))
        && (r.blocks.body 1).contains (.line (.comment "Unknown node type: x\nlog(1);")))
      = true := by
  decide +kernel

theorem print_held_and_name_and_id_not :
    (∃ behind rest, (compile injecting .builtin {} "").source
        = "/*" ++ (headerText injecting {} "" ++ ("*/" ++ behind))
      ∧ Text.behindBlock? (headerText injecting {} "" ++ ("*/" ++ behind)).toList
        ≠ some behind.toList
      ∧ Text.behindBlock? (headerText injecting {} "" ++ ("*/" ++ behind)).toList
        = some ('B' :: rest))
      ∧ (∃ after, HasComment (compile injecting .builtin {} "").source ({} : Options).indentUnit
          "Print (p)" after
        ∧ Text.behindLine ("// " ++ ("Print (p)" ++ ("\n" ++ after))).toList
          = ("\n" ++ after).toList)
      ∧ ∃ after, HasComment (compile injecting .builtin {} "").source ({} : Options).indentUnit
          "Unknown node type: x\nlog(1);" after
        ∧ Text.behindLine ("// " ++ ("Unknown node type: x\nlog(1);" ++ ("\n" ++ after))).toList
          = '\n' :: ("log(1);".toList ++ ("\n" ++ after).toList) := by
  obtain ⟨r, hr, hlines⟩ := List.any_eq_true.1 both_comments_written
  rw [Bool.and_eq_true, List.contains_iff_mem, List.contains_iff_mem] at hlines
  obtain ⟨-, ⟨behind, hsource, hheld, hleft⟩, -, hcomments⟩ :=
    comments_hold_exactly_unmarked_texts injecting .builtin {} ""
  refine ⟨?_, ?_, ?_⟩
  · obtain ⟨rest, hrest⟩ := hleft ['A'] ['B'] (by decide) (Text.not_closes_of_not_mem (by decide))
    refine ⟨behind, rest, hsource, fun hown => ?_, hrest⟩
    exact (hheld.1 hown).1 ⟨['A'], ['B'], by decide⟩
  · obtain ⟨after, hline, hends, -⟩ :=
      hcomments r hr "Print (p)" (shows_of_mem_body hr hlines.1)
    exact ⟨after, hline, hends.2 (by decide)⟩
  · obtain ⟨after, hline, -, hends⟩ :=
      hcomments r hr "Unknown node type: x\nlog(1);" (shows_of_mem_body hr hlines.2)
    exact ⟨after, hline,
      hends "Unknown node type: x".toList '\n' "log(1);".toList (by decide) (by decide) (by decide)⟩

end MarkedTexts

end Blueprints
