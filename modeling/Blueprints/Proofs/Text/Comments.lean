import Mathlib.Data.List.Infix

/-! # Comments in a text

    A reader of a program leaves a comment at the first mark that ends it: a
    line break where the comment takes the rest of a line, and `*/` where it may
    take several lines.  So a text that is put into a comment stays there
    exactly if it has no such mark (`behindLine_eq_iff`, `behindBlock?_eq_iff`).
    Otherwise the reader goes on behind the first one. -/

namespace Blueprints.Text

/-! ## The rest of a line -/

/-- Whether a character ends a line. -/
def isLineBreak (c : Char) : Bool :=
  c == '\n' || c == '\r' || c == '\u2028' || c == '\u2029'

/-- Whether a text has the end of a line in it. -/
def breaksLine (s : String) : Bool := s.toList.any isLineBreak

/-- The end of a line is in one of two texts or in neither. -/
theorem breaksLine_append (s t : String) :
    breaksLine (s ++ t) = (breaksLine s || breaksLine t) := by
  rw [breaksLine, String.toList_append, List.any_append]
  rfl

/-- Where a reader goes on who was in a comment that takes the rest of a
    line. -/
def behindLine (cs : List Char) : List Char := cs.dropWhile fun c => !isLineBreak c

/-- The first line break ends the comment. -/
theorem behindLine_append {u v : List Char} {c : Char} (hu : u.any isLineBreak = false)
    (hc : isLineBreak c = true) : behindLine (u ++ c :: v) = c :: v := by
  induction u with
  | nil => exact List.dropWhile_cons_of_neg (by simp [hc])
  | cons d u ih =>
      rw [List.any_cons, Bool.or_eq_false_iff] at hu
      exact (List.dropWhile_cons_of_pos (by simp [hu.1])).trans (ih hu.2)

/-- A text with line breaks has a first one. -/
theorem exists_first_break {cs : List Char} (h : cs.any isLineBreak = true) :
    ∃ u c v, cs = u ++ c :: v ∧ u.any isLineBreak = false ∧ isLineBreak c = true := by
  induction cs with
  | nil => cases h
  | cons d cs ih =>
      by_cases hd : isLineBreak d = true
      · exact ⟨[], d, cs, rfl, rfl, hd⟩
      · rw [List.any_cons, Bool.eq_false_iff.2 hd, Bool.false_or] at h
        obtain ⟨u, c, v, rfl, hu, hc⟩ := ih h
        exact ⟨d :: u, c, v, rfl, by rw [List.any_cons, Bool.eq_false_iff.2 hd, hu]; rfl, hc⟩

/-- **A comment ends with its line exactly if its text has no line break.** -/
theorem behindLine_eq_iff (cs rest : List Char) :
    behindLine (cs ++ '\n' :: rest) = '\n' :: rest ↔ cs.any isLineBreak = false := by
  refine ⟨fun h => ?_, fun h => behindLine_append h rfl⟩
  rw [← Bool.not_eq_true]
  intro hbreak
  obtain ⟨u, c, v, rfl, hu, hc⟩ := exists_first_break hbreak
  rw [List.append_assoc, List.cons_append, behindLine_append hu hc] at h
  have hlength := congrArg List.length h
  simp only [List.length_cons, List.length_append] at hlength
  omega

/-! ## Several lines -/

/-- The mark that ends a comment of several lines occurs. -/
def Closes (cs : List Char) : Prop := ['*', '/'] <:+: cs

/-- The mark stands at the front of a text, or behind its first character. -/
theorem closes_cons_iff {c : Char} {cs : List Char} :
    Closes (c :: cs) ↔ (c = '*' ∧ cs.head? = some '/') ∨ Closes cs := by
  rw [Closes, List.infix_cons_iff, List.cons_prefix_cons, eq_comm]
  refine or_congr_left (and_congr_right fun _ => ?_)
  cases cs with
  | nil => simp
  | cons d cs => simp [eq_comm]

theorem not_closes_nil : ¬Closes [] := by simp [Closes]

theorem not_closes_of_not_mem {cs : List Char} (h : '/' ∉ cs) : ¬Closes cs :=
  fun hcloses => h (hcloses.subset (List.mem_cons_of_mem _ List.mem_cons_self))

/-- **The mark stands in one of two texts, or across their border.** -/
theorem closes_append_iff {u v : List Char} :
    Closes (u ++ v) ↔ Closes u ∨ (u.getLast? = some '*' ∧ v.head? = some '/') ∨ Closes v := by
  induction u with
  | nil => simp [not_closes_nil]
  | cons c u ih =>
      rw [List.cons_append, closes_cons_iff, ih, closes_cons_iff]
      cases u with
      | nil => simp [not_closes_nil]
      | cons d u => simp [or_assoc]

/-- A text behind one that has no part of the mark closes what it would close by
    itself. -/
theorem closes_append_of_clean {front text : List Char} (hfront : '/' ∉ front)
    (hlast : front.getLast? ≠ some '*') : Closes (front ++ text) ↔ Closes text := by
  rw [closes_append_iff]
  simp [not_closes_of_not_mem hfront, hlast]

/-- Lines close what one of them does: the mark never spans the end of a line. -/
theorem closes_lines_iff (ls : List String) :
    Closes (String.join (ls.map (· ++ "\n"))).toList ↔ ∃ l ∈ ls, Closes l.toList := by
  induction ls with
  | nil => simp [not_closes_nil]
  | cons l ls ih =>
      have hend : Closes ((l ++ "\n").toList) ↔ Closes l.toList := by
        rw [String.toList_append, closes_append_iff]
        simp [closes_cons_iff, not_closes_nil]
      rw [List.map_cons, String.join_cons, String.toList_append, closes_append_iff, hend, ih]
      simp

/-- Where a reader goes on who was in a comment of several lines, if it has an
    end. -/
def behindBlock? : List Char → Option (List Char)
  | [] => none
  | c :: cs => if c = '*' ∧ cs.head? = some '/' then some cs.tail else behindBlock? cs

/-- The first mark ends the comment. -/
theorem behindBlock?_append {u : List Char} (hu : ¬Closes u) (v : List Char) :
    behindBlock? (u ++ '*' :: '/' :: v) = some v := by
  induction u with
  | nil => rfl
  | cons c u ih =>
      rw [closes_cons_iff, not_or] at hu
      have hgoes : ¬(c = '*' ∧ (u ++ '*' :: '/' :: v).head? = some '/') := by
        cases u with
        | nil => simp
        | cons d u => exact hu.1
      rw [List.cons_append, behindBlock?, if_neg hgoes]
      exact ih hu.2

/-- A text with marks has a first one. -/
theorem exists_first_close {cs : List Char} (h : Closes cs) :
    ∃ u v, cs = u ++ '*' :: '/' :: v ∧ ¬Closes u := by
  induction cs with
  | nil => exact absurd h not_closes_nil
  | cons c cs ih =>
      by_cases hhere : c = '*' ∧ cs.head? = some '/'
      · obtain ⟨rfl, hhead⟩ := hhere
        obtain ⟨v, rfl⟩ := List.head?_eq_some_iff.1 hhead
        exact ⟨[], v, rfl, not_closes_nil⟩
      · obtain ⟨u, v, rfl, hu⟩ := ih ((closes_cons_iff.1 h).resolve_left hhere)
        refine ⟨c :: u, v, rfl, fun hcloses => ?_⟩
        obtain ⟨rfl, hhead⟩ := (closes_cons_iff.1 hcloses).resolve_right hu
        exact hhere ⟨rfl, by rw [List.head?_append, hhead]; rfl⟩

/-- **A comment is closed by its own mark exactly if its text has none.** -/
theorem behindBlock?_eq_iff (cs rest : List Char) :
    behindBlock? (cs ++ '*' :: '/' :: rest) = some rest ↔ ¬Closes cs := by
  refine ⟨fun h hcloses => ?_, fun h => behindBlock?_append h rest⟩
  obtain ⟨u, v, rfl, hu⟩ := exists_first_close hcloses
  rw [List.append_assoc, List.cons_append, List.cons_append, behindBlock?_append hu] at h
  have hlength := congrArg List.length (Option.some.inj h)
  simp only [List.length_cons, List.length_append] at hlength
  omega

end Blueprints.Text
