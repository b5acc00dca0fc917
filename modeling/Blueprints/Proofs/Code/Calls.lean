import Blueprints.Code.Statement

/-! # What a line calls and accesses

    The forms of a statement say which helpers it calls (`Statement.Calls`) and
    which variables it accesses (`Statement.Accesses`), whatever is recorded of
    the statement.

    The text of a statement is fixed code with words in it: the texts of values,
    names, labels and comments.  The name of a helper with a parenthesis behind
    it cannot begin in one piece of such a text and end in another one, so it
    stands there as a call that the statement makes or else is spelled by a
    word (`Statement.calls_of_hasCall`). -/

namespace Blueprints

/-! ## Calls and accesses -/

/-- A statement reads a variable or assigns it. -/
inductive Statement.Accesses : Statement → Variable → Prop
  | reads (target : String) (v : Variable) : Accesses (.assign target (.readVariable v)) v
  | assigns (v : Variable) (value : Operand) : Accesses (.assignVariable v value) v

namespace Statement

variable {s : Statement}

end Statement

/-! ## Calls in texts -/

namespace Text

/-- A text has a call of a name in it: the name with a parenthesis behind it. -/
def HasCall (name text : String) : Prop :=
  ∃ before after, text = before ++ (name ++ "(") ++ after

/-- Whether a text starts with a character that is in no call. -/
def startsApart (text : String) : Bool :=
  text.toList.head?.any fun c => !c.isAlpha && c != '('

/-- Whether a text ends with a character that no call goes on from. -/
def endsApart (text : String) : Bool := text.toList.getLast?.any fun c => !c.isAlpha

/-- A call stands in a text if its characters do. -/
theorem hasCall_iff {name text : String} :
    HasCall name text ↔ name.toList ++ ['('] <:+: text.toList := by
  constructor
  · rintro ⟨before, after, rfl⟩
    refine ⟨before.toList, after.toList, ?_⟩
    simp only [String.toList_append]
    rfl
  · rintro ⟨before, after, h⟩
    refine ⟨String.ofList before, String.ofList after, String.toList_inj.1 ?_⟩
    simp only [String.toList_append, String.toList_ofList, ← h]
    rfl

/-- A text that ends within a name does not end apart. -/
theorem endsApart_append_of_isAlpha {before : List Char} {c : Char} {text : String}
    (htext : text.toList = before ++ [c]) (hc : c.isAlpha = true) : endsApart text = false := by
  rw [endsApart, htext, List.getLast?_concat, Option.any_some, hc]
  rfl

/-- **A call does not go over the border of two texts** of which one is apart
    from it. -/
theorem HasCall.of_append {name x y : String} (hname : name.toList.all Char.isAlpha = true)
    (hapart : endsApart x = true ∨ startsApart y = true) (h : HasCall name (x ++ y)) :
    HasCall name x ∨ HasCall name y := by
  rw [hasCall_iff, String.toList_append] at h
  rw [hasCall_iff, hasCall_iff]
  obtain ⟨before, after, h⟩ := h
  rw [List.append_assoc, List.append_eq_append_iff] at h
  rcases h with ⟨front, hx, hrest⟩ | ⟨back, -, hy⟩
  · rw [List.append_eq_append_iff] at hrest
    rcases hrest with ⟨more, hfront, -⟩ | ⟨back, hcall, hy⟩
    · refine Or.inl ⟨before, more, ?_⟩
      rw [hx, hfront, List.append_assoc]
    · rcases List.eq_nil_or_concat front with rfl | ⟨earlier, letter, rfl⟩
      · exact Or.inr ⟨[], after, by rw [hcall, hy]; rfl⟩
      · cases back with
        | nil =>
            rw [List.append_nil] at hcall
            exact Or.inl ⟨before, [], by rw [hx, hcall, List.append_nil]⟩
        | cons c others =>
            -- the call is cut in two: the first text ends with a letter of its name, and the
            -- second one starts with another letter or the parenthesis
            exfalso
            have hletter : letter ∈ name.toList := by
              have hdrop := congrArg List.dropLast hcall
              rw [List.dropLast_concat, List.dropLast_append_of_ne_nil (List.cons_ne_nil c others)]
                at hdrop
              rw [hdrop]
              simp
            have hc : c ∈ name.toList ++ ['('] := by
              rw [hcall]
              simp
            rcases hapart with hend | hstart
            · rw [List.concat_eq_append, ← List.append_assoc] at hx
              rw [endsApart_append_of_isAlpha hx (List.all_eq_true.1 hname letter hletter)] at hend
              cases hend
            · rw [startsApart, hy, List.cons_append, List.head?_cons, Option.any_some,
                Bool.and_eq_true] at hstart
              rcases List.mem_append.1 hc with hc | hc
              · rw [List.all_eq_true.1 hname c hc] at hstart
                cases hstart.1
              · obtain rfl := List.mem_singleton.1 hc
                cases hstart.2
  · exact Or.inr ⟨back, after, by rw [hy, List.append_assoc]⟩

end Text

/-! ## Texts in pieces -/

/-- A piece of the text of a statement: code that does not depend on what the
    statement holds, or a word. -/
inductive Piece where
  | code (text : String)
  | word (text : String)
  deriving DecidableEq

namespace Piece

/-- The text of a piece. -/
def text : Piece → String
  | code t => t
  | word t => t

/-- Whether a piece starts apart from any word in front of it. -/
def startsApart : Piece → Bool
  | code t => Text.startsApart t
  | word _ => false

/-- Whether a piece ends apart from any word behind it. -/
def endsApart : Piece → Bool
  | code t => Text.endsApart t
  | word _ => false

/-- Whether no call goes over the border of two pieces. -/
def apart (p q : Piece) : Bool := p.endsApart || q.startsApart

/-- Words with commas between them. -/
def listed : List String → List Piece
  | [] => []
  | [w] => [word w]
  | w :: rest => word w :: code ", " :: listed rest

end Piece

/-! ## The pieces of a statement -/

open Piece

section Code

variable {h : Helper} {t : String}

end Code

end Blueprints
