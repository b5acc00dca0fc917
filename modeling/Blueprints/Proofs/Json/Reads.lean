import Mathlib.Data.List.Forall2
import Blueprints.Proofs.Json.Tokens

/-! # Reading what is written

    A reader *reads* a value as `a` if it takes the text of the value for `a`
    wherever that stands (`Reads`).  Arrays and objects are read item by item
    and field by field, so that what reads the parts reads the whole
    (`Reads.list`, `fields_takes`). -/

namespace Blueprints

namespace Json

theorem exists_of_map_ok {ε α β : Type} {x : Except ε α} {f : α → β} {b : β}
    (h : x.map f = .ok b) : ∃ a, x = .ok a ∧ f a = b := by
  cases x with
  | error e => exact nomatch h
  | ok a => exact ⟨a, rfl, Except.ok.inj h⟩

/-! ## How the text of a value begins -/

/-- The text of a value begins with a character that is neither white space
    nor a closing bracket, and only that of null begins like `null`. -/
def Begins (v : Json) : Prop :=
  ∀ depth, ∃ c cs, prettyChars depth v = c :: cs ∧ isSpace c = false ∧ c ≠ ']'
    ∧ (c = 'n' → v = .null)

/-- White space ahead of a value is skipped, and no more. -/
theorem Begins.skipSpace {v : Json} (h : Begins v) (depth : Nat) {ws : List Char}
    (blank : Blank ws) (rest : List Char) :
    skipSpace (ws ++ (prettyChars depth v ++ rest)) = prettyChars depth v ++ rest := by
  obtain ⟨c, cs, hchars, hspace, -, -⟩ := h depth
  rw [skipSpace_append blank, hchars]
  exact skipSpace_cons hspace _

theorem begins_string (s : String) : Begins (.string s) :=
  fun _ => ⟨'"', _, rfl, rfl, by decide, fun h => absurd h (by decide)⟩

theorem prettyChars_string (depth : Nat) (s : String) (rest : List Char) :
    prettyChars depth (.string s) ++ rest
      = '"' :: (s.toList.flatMap escapeChar ++ '"' :: rest) := by
  show stringChars s ++ rest = _
  rw [stringChars, List.append_assoc]
  rfl

/-- A truth value begins with its first letter. -/
theorem begins_bool (b : Bool) : Begins (.bool b) := by
  intro depth
  cases b with
  | true => exact ⟨'t', _, rfl, rfl, by decide, by decide⟩
  | false => exact ⟨'f', _, rfl, rfl, by decide, by decide⟩

theorem begins_null : Begins .null := fun _ => ⟨'n', _, rfl, rfl, by decide, fun _ => rfl⟩

/-- An array is its items between brackets, with white space at the end. -/
theorem prettyChars_array (depth : Nat) (vs : List Json) :
    ∃ ws, Blank ws ∧ ∀ rest, prettyChars depth (.array vs) ++ rest
      = '[' :: (prettyItems (depth + 1) vs ++ (ws ++ ']' :: rest)) := by
  cases vs with
  | nil => exact ⟨[], blank_nil, fun _ => rfl⟩
  | cons v vs =>
      refine ⟨lineStart depth, blank_lineStart depth, fun rest => ?_⟩
      rw [prettyChars.eq_def]
      simp

/-- An object is its fields between braces, with white space at the end. -/
theorem prettyChars_object (depth : Nat) (fs : List (String × Json)) :
    ∃ ws, Blank ws ∧ ∀ rest, prettyChars depth (.object fs) ++ rest
      = '\x7b' :: (prettyFields (depth + 1) fs ++ (ws ++ '\x7d' :: rest)) := by
  cases fs with
  | nil => exact ⟨[], blank_nil, fun _ => rfl⟩
  | cons f fs =>
      refine ⟨lineStart depth, blank_lineStart depth, fun rest => ?_⟩
      rw [prettyChars.eq_def]
      simp

/-- An array begins with its bracket. -/
theorem begins_array (vs : List Json) : Begins (.array vs) := by
  intro depth
  obtain ⟨ws, -, hchars⟩ := prettyChars_array depth vs
  exact ⟨'[', _, (List.append_nil _).symm.trans (hchars []), rfl, by decide,
    fun h => absurd h (by decide)⟩

/-- An object begins with its brace. -/
theorem begins_object (fs : List (String × Json)) : Begins (.object fs) := by
  intro depth
  obtain ⟨ws, -, hchars⟩ := prettyChars_object depth fs
  exact ⟨'\x7b', _, (List.append_nil _).symm.trans (hchars []), rfl, by decide,
    fun h => absurd h (by decide)⟩

namespace Reader

/-- A reader takes the text of a value for `a`, wherever it stands. -/
structure Reads {α : Type} (read : Reader α) (v : Json) (a : α) : Prop where
  begins : Begins v
  reads : ∀ (depth : Nat) {ws rest : List Char}, Blank ws → Ends rest →
    read (ws ++ (prettyChars depth v ++ rest)) = .ok (a, rest)

/-- What is read can be changed afterwards. -/
theorem Reads.map {α β : Type} {read : Reader α} {v : Json} {a : α} (h : Reads read v a)
    (f : α → β) : Reads (fun cs => (read cs).map fun (a, rest) => (f a, rest)) v (f a) where
  begins := h.begins
  reads depth _ _ blank ends := by
    rw [h.reads depth blank ends]
    rfl

/-- **A string is read back**, whatever it is expected to be. -/
theorem reads_textAs (expected : Expected) (s : String) :
    Reads (textAs expected) (.string s) s where
  begins := begins_string s
  reads depth ws rest blank ends := by
    rw [textAs, (begins_string s).skipSpace depth blank, prettyChars_string]
    exact stringRest_chars s rest

theorem reads_text (s : String) : Reads text (.string s) s := reads_textAs .text s

/-- A truth value is read back. -/
theorem reads_boolean (b : Bool) : Reads boolean (.bool b) b where
  begins := begins_bool b
  reads depth ws rest blank ends := by
    rw [boolean, (begins_bool b).skipSpace depth blank, prettyChars.eq_def]
    cases b with
    | true => rfl
    | false => rfl

/-- A value that may be missing is read back, if it is not null itself. -/
theorem Reads.option {α : Type} {read : Reader α} {v : Json} {a : α} (h : Reads read v a)
    (hnull : v ≠ .null) : Reads (Reader.option read) v (some a) where
  begins := h.begins
  reads depth ws rest blank ends := by
    obtain ⟨c, cs, hchars, -, -, hn⟩ := h.begins depth
    have hread : read (prettyChars depth v ++ rest) = .ok (a, rest) :=
      h.reads depth blank_nil ends
    rw [Reader.option, h.begins.skipSpace depth blank]
    split
    · next r heq =>
      rw [hchars] at heq
      exact absurd (hn (List.cons.inj heq).1) hnull
    · rw [hread]
      rfl

/-! ## Arrays -/

/-- The items behind the first, each behind a comma. -/
def moreItems (depth : Nat) : List Json → List Char
  | [] => []
  | v :: rest => ',' :: prettyItems depth (v :: rest)

/-- The items of an array stand on lines of their own, those behind the first behind
    a comma. -/
theorem prettyItems_cons (depth : Nat) (v : Json) (rest : List Json) :
    prettyItems depth (v :: rest)
      = lineStart depth ++ (prettyChars depth v ++ moreItems depth rest) := by
  cases rest with
  | nil => simp [prettyItems, moreItems]
  | cons w rest => simp [prettyItems, moreItems]

/-- Every item takes a character at least. -/
theorem length_le_prettyItems (depth : Nat) (vs : List Json) :
    vs.length ≤ (prettyItems depth vs).length := by
  induction vs with
  | nil => exact Nat.zero_le _
  | cons v rest ih =>
      have hmore : rest.length ≤ (moreItems depth rest).length := by
        cases rest with
        | nil => exact Nat.zero_le _
        | cons w rest => exact Nat.le_succ_of_le ih
      rw [prettyItems_cons, List.length_append, List.length_append, List.length_cons, lineStart,
        List.length_cons]
      omega

/-- What comes behind a value in an array or object does not go on with a
    number. -/
theorem ends_blank_append {ws : List Char} (blank : Blank ws) {c : Char}
    (h : c.isDigit = false ∧ c ≠ '.' ∧ c ≠ 'e' ∧ c ≠ 'E') (rest : List Char) :
    Ends (ws ++ c :: rest) := by
  cases ws with
  | nil => exact ends_cons h rest
  | cons w ws =>
      have hspace := blank w (List.mem_cons_self ..)
      refine ends_cons ?_ _
      rcases isSpace_iff.1 hspace with rfl | rfl | rfl | rfl
      · decide
      · decide
      · decide
      · decide

/-- An array ends at its bracket. -/
theorem nextItem_close (first : Bool) {ws : List Char} (blank : Blank ws) (rest : List Char) :
    nextItem first (ws ++ ']' :: rest) = .ok none := by
  rw [nextItem, skipSpace_append blank, skipSpace_cons (by decide)]
  rfl

/-- The first item starts after white space. -/
theorem nextItem_first {v : Json} (begins : Begins v) (depth : Nat) {ws : List Char}
    (blank : Blank ws) (rest : List Char) :
    nextItem true (ws ++ (prettyChars depth v ++ rest))
      = .ok (some (prettyChars depth v ++ rest)) := by
  obtain ⟨c, cs, hchars, -, hbracket, -⟩ := begins depth
  rw [nextItem, begins.skipSpace depth blank, hchars]
  dsimp only [List.cons_append]
  rw [if_neg (by simpa using hbracket)]
  rfl

/-- Further items start after a comma and white space. -/
theorem nextItem_more {v : Json} (begins : Begins v) (depth : Nat) {ws : List Char}
    (blank : Blank ws) (rest : List Char) :
    nextItem false (',' :: (ws ++ (prettyChars depth v ++ rest)))
      = .ok (some (prettyChars depth v ++ rest)) := by
  obtain ⟨c, cs, hchars, -, hbracket, -⟩ := begins depth
  rw [nextItem, skipSpace_cons (by decide)]
  dsimp only
  rw [if_neg (by decide), if_neg (by decide), if_pos (by decide), begins.skipSpace depth blank,
    hchars]
  dsimp only [List.cons_append]
  rw [if_neg (by simpa using hbracket)]

section Items

variable {α : Type} {item : Reader α} (depth : Nat) {ws : List Char} (blank : Blank ws)

include blank

/-- An item ends at the comma or the bracket that follows it. -/
theorem ends_moreItems (vs : List Json) (rest : List Char) :
    Ends (moreItems depth vs ++ (ws ++ ']' :: rest)) := by
  cases vs with
  | nil => exact ends_blank_append blank (by decide) rest
  | cons v vs => exact ends_cons (by decide) _

omit blank in
/-- One item, where the text of its value comes next. -/
theorem items_step {first : Bool} {v : Json} {a : α} {as : List α} {b : Char}
    {bound cs more rest : List Char} (hv : Reads item v a)
    (hnext : nextItem first cs = .ok (some (prettyChars depth v ++ more))) (ends : Ends more)
    (hmore : items item bound false more = .ok (as, rest)) :
    items item (b :: bound) first cs = .ok (a :: as, rest) := by
  have hread : item (prettyChars depth v ++ more) = .ok (a, more) :=
    hv.reads depth blank_nil ends
  rw [items, hnext]
  dsimp only
  rw [hread]
  dsimp only
  rw [hmore]

/-- The items behind the first are read one after the other.  The bound lasts
    as long as it is longer than the list. -/
theorem items_more {vs : List Json} {as : List α} (h : List.Forall₂ (Reads item) vs as)
    {bound : List Char} (hbound : vs.length < bound.length) (rest : List Char) :
    items item bound false (moreItems depth vs ++ (ws ++ ']' :: rest))
      = .ok (as, ws ++ ']' :: rest) := by
  induction h generalizing bound with
  | nil =>
      cases bound with
      | nil => exact absurd hbound (Nat.lt_irrefl 0)
      | cons b bound =>
          rw [items, moreItems, List.nil_append, nextItem_close false blank]
  | @cons v a vs as hv hvs ih =>
      cases bound with
      | nil => exact absurd hbound (Nat.not_lt_zero _)
      | cons b bound =>
          refine items_step depth hv ?_ (ends_moreItems depth blank vs rest)
            (ih (Nat.lt_of_succ_lt_succ hbound))
          rw [moreItems, prettyItems_cons, List.cons_append, List.append_assoc, List.append_assoc]
          exact nextItem_more hv.begins depth (blank_lineStart depth) _

/-- **The items of an array are read back**, one after the other. The bound is never
    reached, as every item takes a character. -/
theorem items_first {vs : List Json} {as : List α} (h : List.Forall₂ (Reads item) vs as)
    {bound : List Char} (hbound : vs.length < bound.length) (rest : List Char) :
    items item bound true (prettyItems depth vs ++ (ws ++ ']' :: rest))
      = .ok (as, ws ++ ']' :: rest) := by
  cases bound with
  | nil => exact absurd hbound (Nat.not_lt_zero _)
  | cons b bound =>
      cases h with
      | nil => rw [items, prettyItems, List.nil_append, nextItem_close true blank]
      | @cons v a vs as hv hvs =>
          refine items_step depth hv ?_ (ends_moreItems depth blank vs rest)
            (items_more depth blank hvs (Nat.lt_of_succ_lt_succ hbound) rest)
          rw [prettyItems_cons, List.append_assoc, List.append_assoc]
          exact nextItem_first hv.begins depth (blank_lineStart depth) _

/-- **What reads the items reads the array.** -/
theorem arrayRest_items {vs : List Json} {as : List α} (h : List.Forall₂ (Reads item) vs as)
    (rest : List Char) :
    arrayRest item (prettyItems depth vs ++ (ws ++ ']' :: rest)) = .ok (as, rest) := by
  have hbound : vs.length < (prettyItems depth vs ++ (ws ++ ']' :: rest)).length := by
    have hle := length_le_prettyItems depth vs
    simp only [List.length_append, List.length_cons]
    omega
  rw [arrayRest, items_first depth blank h hbound]
  dsimp only
  rw [closeArray, skipSpace_append blank, skipSpace_cons (by decide)]
  rfl

end Items

/-- A list is read back, one level of brackets up. -/
theorem Reads.list {α : Type} {item : Nat → Reader α} {k : Nat} {vs : List Json} {as : List α}
    (h : List.Forall₂ (Reads (item k)) vs as) :
    Reads (Reader.list item (k + 1)) (.array vs) as where
  begins := begins_array vs
  reads depth ws rest blank ends := by
    obtain ⟨ws', blank', hchars⟩ := prettyChars_array depth vs
    rw [Reader.list, (begins_array vs).skipSpace depth blank, hchars]
    exact arrayRest_items (depth + 1) blank' h rest

/-! ## Objects -/

/-- The fields behind the first, each behind a comma. -/
def moreFields (depth : Nat) : List (String × Json) → List Char
  | [] => []
  | f :: rest => ',' :: prettyFields depth (f :: rest)

/-- The fields of an object stand on lines of their own, those behind the first
    behind a comma. -/
theorem prettyFields_cons (depth : Nat) (name : String) (v : Json)
    (rest : List (String × Json)) :
    prettyFields depth ((name, v) :: rest)
      = lineStart depth ++ '"' :: (name.toList.flatMap escapeChar
        ++ '"' :: ':' :: ' ' :: (prettyChars depth v ++ moreFields depth rest)) := by
  cases rest with
  | nil => simp [prettyFields, moreFields, stringChars]
  | cons f rest => simp [prettyFields, moreFields, stringChars]

/-- Every field takes a character at least. -/
theorem length_le_prettyFields (depth : Nat) (fs : List (String × Json)) :
    fs.length ≤ (prettyFields depth fs).length := by
  induction fs with
  | nil => exact Nat.zero_le _
  | cons f rest ih =>
      have hmore : rest.length ≤ (moreFields depth rest).length := by
        cases rest with
        | nil => exact Nat.zero_le _
        | cons w rest => exact Nat.le_succ_of_le ih
      rw [prettyFields_cons depth f.1 f.2 rest]
      simp only [List.length_append, List.length_cons]
      omega

theorem nextKey_close (first : Bool) {ws : List Char} (blank : Blank ws) (rest : List Char) :
    nextKey first (ws ++ '\x7d' :: rest) = .ok none := by
  rw [nextKey, skipSpace_append blank, skipSpace_cons (by decide)]
  rfl

theorem nextKey_first {ws : List Char} (blank : Blank ws) (rest : List Char) :
    nextKey true (ws ++ '"' :: rest) = .ok (some rest) := by
  rw [nextKey, skipSpace_append blank, skipSpace_cons (by decide)]
  rfl

/-- Further names start after a comma and white space. -/
theorem nextKey_more {ws : List Char} (blank : Blank ws) (rest : List Char) :
    nextKey false (',' :: (ws ++ '"' :: rest)) = .ok (some rest) := by
  rw [nextKey, skipSpace_cons (by decide)]
  dsimp only
  rw [if_neg (by decide), if_neg (by decide), if_pos (by decide), skipSpace_append blank,
    skipSpace_cons (by decide)]
  rfl

/-- A value is read back behind its colon. -/
theorem Reads.afterColon {α : Type} {read : Reader α} {v : Json} {a : α} (h : Reads read v a)
    (depth : Nat) {rest : List Char} (ends : Ends rest) :
    afterColon read (':' :: ' ' :: (prettyChars depth v ++ rest)) = .ok (a, rest) := by
  have blank : Blank [' '] := fun c hc => List.mem_singleton.1 hc ▸ rfl
  rw [Reader.afterColon, colon, skipSpace_cons (by decide)]
  exact h.reads depth blank ends

/-- Fields as they are written, taken one after the other, lead from a state to
    another. -/
inductive Takes {σ : Type} (field : σ → String → Reader σ) :
    σ → List (String × Json) → σ → Prop where
  | nil (s : σ) : Takes field s [] s
  | cons {s s' s'' : σ} {name : String} {v : Json} {fs : List (String × Json)}
      (first : ∀ (depth : Nat) {rest : List Char}, Ends rest →
        field s name (':' :: ' ' :: (prettyChars depth v ++ rest)) = .ok (s', rest))
      (more : Takes field s' fs s'') : Takes field s ((name, v) :: fs) s''

section Fields

variable {σ : Type} {field : σ → String → Reader σ} (depth : Nat) {ws : List Char}
  (blank : Blank ws)

include blank

/-- A field ends at the comma or the brace that follows it. -/
theorem ends_moreFields (fs : List (String × Json)) (rest : List Char) :
    Ends (moreFields depth fs ++ (ws ++ '\x7d' :: rest)) := by
  cases fs with
  | nil => exact ends_blank_append blank (by decide) rest
  | cons f fs => exact ends_cons (by decide) _

omit blank in
/-- One field, where its name and the text of its value come next. -/
theorem fields_step {first : Bool} {s s' s'' : σ} {name : String} {v : Json} {b : Char}
    {bound cs more rest : List Char}
    (htakes : ∀ (depth : Nat) {rest : List Char}, Ends rest →
      field s name (':' :: ' ' :: (prettyChars depth v ++ rest)) = .ok (s', rest))
    (hnext : nextKey first cs = .ok (some (name.toList.flatMap escapeChar
      ++ '"' :: ':' :: ' ' :: (prettyChars depth v ++ more)))) (ends : Ends more)
    (hmore : fields stringRest field bound false s' more = .ok (s'', rest)) :
    fields stringRest field (b :: bound) first s cs = .ok (s'', rest) := by
  rw [fields, hnext]
  dsimp only
  rw [stringRest_chars]
  dsimp only
  rw [htakes depth ends]
  exact hmore

/-- The fields behind the first are taken one after the other. By induction on the
    fields. -/
theorem fields_more {fs : List (String × Json)} {s s' : σ} (h : Takes field s fs s')
    {bound : List Char} (hbound : fs.length < bound.length) (rest : List Char) :
    fields stringRest field bound false s (moreFields depth fs ++ (ws ++ '\x7d' :: rest))
      = .ok (s', ws ++ '\x7d' :: rest) := by
  induction h generalizing bound with
  | nil s =>
      cases bound with
      | nil => exact absurd hbound (Nat.lt_irrefl 0)
      | cons b bound =>
          rw [fields, moreFields, List.nil_append, nextKey_close false blank]
  | @cons s s' s'' name v fs first more ih =>
      cases bound with
      | nil => exact absurd hbound (Nat.not_lt_zero _)
      | cons b bound =>
          refine fields_step depth first ?_ (ends_moreFields depth blank fs rest)
            (ih (Nat.lt_of_succ_lt_succ hbound))
          rw [moreFields, prettyFields_cons]
          simp only [List.cons_append, List.append_assoc]
          exact nextKey_more (blank_lineStart depth) _

/-- **What takes the fields takes the object.** -/
theorem fields_takes {fs : List (String × Json)} {s s' : σ} (h : Takes field s fs s')
    {bound : List Char} (hbound : fs.length < bound.length) (rest : List Char) :
    fields stringRest field bound true s (prettyFields depth fs ++ (ws ++ '\x7d' :: rest))
      = .ok (s', ws ++ '\x7d' :: rest) := by
  cases bound with
  | nil => exact absurd hbound (Nat.not_lt_zero _)
  | cons b bound =>
      cases h with
      | nil => rw [fields, prettyFields, List.nil_append, nextKey_close true blank]
      | @cons _ s' _ name v fs first more =>
          refine fields_step depth first ?_ (ends_moreFields depth blank fs rest)
            (fields_more depth blank more (Nat.lt_of_succ_lt_succ hbound) rest)
          rw [prettyFields_cons]
          simp only [List.cons_append, List.append_assoc]
          exact nextKey_first (blank_lineStart depth) _

omit blank in
/-- The bound of an object is never reached. -/
theorem length_lt_object (fs : List (String × Json)) (rest : List Char) :
    fs.length < (prettyFields depth fs ++ (ws ++ '\x7d' :: rest)).length := by
  have hle := length_le_prettyFields depth fs
  simp only [List.length_append, List.length_cons]
  omega

theorem closeObject_blank (rest : List Char) : closeObject (ws ++ '\x7d' :: rest) = .ok rest := by
  rw [closeObject, skipSpace_append blank, skipSpace_cons (by decide)]
  rfl

end Fields

end Reader

end Json

end Blueprints
