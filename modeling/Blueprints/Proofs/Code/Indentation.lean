import Mathlib.Data.List.Forall2
import Blueprints.Code.Routine
import Blueprints.Proofs.Code.Passages

/-! # Indentation

    How deep a level is indented is a matter of spaces at the start of lines
    alone.  Two lines are *aligned* if they are the same text after some spaces
    each (`Aligned`).  Passages that are written out with one unit of spaces and
    with another give lines that are aligned pair by pair
    (`Passage.aligned_linesOf`), and so do routines (`Routine.aligned_lines`).

    A text may have several lines, since a value that it shows may hold the end
    of one.  So the lines are read off the whole text in the end: those of two
    lists of aligned texts are the same when the spaces at their starts are
    dropped (`flushLines_intercalate`). -/

namespace Blueprints

/-! ## Spaces -/

/-- A text of spaces. -/
def spaces (k : Nat) : String := String.ofList (List.replicate k ' ')

theorem toList_spaces (k : Nat) : (spaces k).toList = List.replicate k ' ' := String.toList_ofList

/-- Spaces for each of some levels are spaces. -/
theorem join_spaces (depth k : Nat) :
    String.join (List.replicate depth (spaces k)) = spaces (depth * k) := by
  rw [← String.toList_inj, String.toList_join, toList_spaces]
  induction depth with
  | zero => simp
  | succ depth ih =>
      rw [List.replicate_succ, List.flatMap_cons, ih, toList_spaces, List.replicate_append_replicate,
        Nat.succ_mul, Nat.add_comm k]

/-- Two lines with the same text after some spaces. -/
def Aligned (l l' : String) : Prop :=
  ∃ k k' text, l = spaces k ++ text ∧ l' = spaces k' ++ text

namespace Aligned

theorem refl (l : String) : Aligned l l :=
  ⟨0, 0, l, String.empty_append.symm, String.empty_append.symm⟩

theorem after (k k' : Nat) (text : String) : Aligned (spaces k ++ text) (spaces k' ++ text) :=
  ⟨k, k', text, rfl, rfl⟩

theorem refl_all (ls : List String) : List.Forall₂ Aligned ls ls :=
  List.forall₂_same.2 fun l _ => refl l

/-- The same text at a depth is aligned, whatever a level is indented by. -/
theorem indented (k k' depth : Nat) (text : String) :
    Aligned (Arena.indented (spaces k) depth text) (Arena.indented (spaces k') depth text) := by
  rw [Arena.indented, Arena.indented]
  split
  · exact refl ""
  · rw [join_spaces, join_spaces]
    exact after ..

end Aligned

/-! ## Passages and routines -/

namespace Passage

variable {α : Type} (text : α → String) (k k' : Nat)

/-- **Passages are aligned**, whatever a level is indented by. -/
theorem aligned_linesOf (depth : Nat) : ∀ ps : List (Passage α),
    List.Forall₂ Aligned (linesOf text (spaces k) depth ps) (linesOf text (spaces k') depth ps)
  | [] => by
    rw [linesOf, linesOf]
    exact .nil
  | .line l :: rest => by
    rw [linesOf, linesOf, lines, lines]
    exact .cons (.indented ..) (aligned_linesOf depth rest)
  | .deeper body :: rest => by
    rw [linesOf, linesOf, lines, lines]
    exact List.rel_append (aligned_linesOf (depth + 1) body) (aligned_linesOf depth rest)
  | .otherwise body :: rest => by
    have hbody := aligned_linesOf (depth + 1) body
    rw [linesOf, linesOf, lines, lines]
    refine List.rel_append ?_ (aligned_linesOf depth rest)
    generalize linesOf text (spaces k) (depth + 1) body = ls at hbody
    generalize linesOf text (spaces k') (depth + 1) body = ls' at hbody
    -- an `else` is written in both or in neither, since the bodies have as many lines
    cases hbody with
    | nil => exact .nil
    | cons hfirst hmore => exact .cons (.indented ..) (.cons hfirst hmore)

end Passage

/-- Declarations and statements, with an empty line between them if there are
    both. -/
theorem aligned_separated {ds ds' ss ss' : List String} (hd : List.Forall₂ Aligned ds ds')
    (hs : List.Forall₂ Aligned ss ss') :
    List.Forall₂ Aligned (if ds.isEmpty || ss.isEmpty then ds ++ ss else ds ++ "" :: ss)
      (if ds'.isEmpty || ss'.isEmpty then ds' ++ ss' else ds' ++ "" :: ss') := by
  have hempty : ∀ {ls ls'}, List.Forall₂ Aligned ls ls' → ls'.isEmpty = ls.isEmpty := by
    intro ls ls' h
    cases h with
    | nil => rfl
    | cons => rfl
  rw [hempty hd, hempty hs]
  split
  · exact List.rel_append hd hs
  · exact List.rel_append hd (.cons (.refl "") hs)

/-- **Routines are aligned**, whatever a level is indented by. -/
theorem Routine.aligned_lines (r : Routine) (k k' depth : Nat) :
    List.Forall₂ Aligned (r.lines (spaces k) depth) (r.lines (spaces k') depth) := by
  refine aligned_separated ?_ ?_
  · rw [List.forall₂_map_left_iff, List.forall₂_map_right_iff]
    exact List.forall₂_same.2 fun _ _ => .indented ..
  · rw [Arena.render_eq_linesOf, Arena.render_eq_linesOf]
    exact Passage.aligned_linesOf Statement.text k k' depth _

/-! ## Lines of a text -/

/-- A line without the spaces at its start. -/
def flush (line : List Char) : List Char := line.dropWhile (· == ' ')

/-- The lines of a text, each without the spaces at its start. -/
def flushLines (text : String) : List (List Char) := (text.toList.splitOn '\n').map flush

/-- Spaces at the start of the first line do not count. -/
theorem map_flush_splitOn_cons (text : List Char) :
    ((' ' :: text).splitOn '\n').map flush = (text.splitOn '\n').map flush := by
  rw [List.splitOn, List.splitOnP_cons_eq_if_modifyHead, if_neg (by decide), List.splitOn]
  cases text.splitOnP (· == '\n') with
  | nil => rfl
  | cons first more => rfl

/-- Spaces in front of a text do not count. By induction on their number. -/
theorem flushLines_spaces_append (k : Nat) (text : String) :
    flushLines (spaces k ++ text) = flushLines text := by
  rw [flushLines, flushLines, String.toList_append, toList_spaces]
  induction k with
  | zero => rfl
  | succ k ih =>
      rw [List.replicate_succ, List.cons_append, map_flush_splitOn_cons]
      exact ih

theorem Aligned.flushLines_eq {l l' : String} (h : Aligned l l') : flushLines l = flushLines l' := by
  obtain ⟨k, k', text, rfl, rfl⟩ := h
  rw [flushLines_spaces_append, flushLines_spaces_append]

/-- A line break parts the lines of a text. -/
theorem flushLines_append (text rest : String) :
    flushLines (text ++ "\n" ++ rest) = flushLines text ++ flushLines rest := by
  rw [flushLines, String.toList_append, String.toList_append, List.append_assoc]
  show ((text.toList ++ '\n' :: rest.toList).splitOn '\n').map flush = _
  rw [List.splitOn_append_cons_self, List.map_append]
  rfl

/-- **Aligned texts have the same lines**, when the spaces at their starts are
    dropped. -/
theorem flushLines_intercalate {ls ls' : List String} (h : List.Forall₂ Aligned ls ls') :
    flushLines ("\n".intercalate ls) = flushLines ("\n".intercalate ls') := by
  induction h with
  | nil => rfl
  | @cons l l' rest rest' hline hrest ih =>
      cases hrest with
      | nil => exact hline.flushLines_eq
      | cons hnext hmore =>
          rw [String.intercalate_cons_cons, String.intercalate_cons_cons, flushLines_append,
            flushLines_append, ih, hline.flushLines_eq]

end Blueprints
