import Blueprints.Code.Helper
import Blueprints.Proofs.Text.Identifiers
import Blueprints.Proofs.Wiring.Names

/-! # The parts of made-up names

    Three sorts of names are made up while a routine is written.  A temporary
    has the name of an output: the stem of its definition, the number of its
    node and an identifier (`madeUp_of_name?`).  A task is numbered behind the
    number of its node (`madeUp_task`).  The index of a loop has a number only,
    if the loop has no output for it (`madeUp_index`).  An identifier does not
    start with a digit, and a number does, so no name is of two sorts. -/

namespace Blueprints

open Text

/-! ## Numbered names -/

/-- A numbered name is the base and characters of identifiers. -/
theorem exists_numbered_eq (base : String) (k : Nat) :
    ∃ more : String, numbered base k = base ++ more
      ∧ more.toList.all isIdentifierChar = true := by
  rw [numbered]
  split
  · exact ⟨"", by simp, rfl⟩
  · refine ⟨"_" ++ Nat.repr k, by rw [String.append_assoc], ?_⟩
    rw [String.toList_append, List.all_append,
      all_isIdentifierChar_of_digits fun c hc => isDigit_of_mem_repr hc]
    rfl

/-- A new name is the wanted one with more behind it. -/
theorem exists_unusedName_eq (taken : List String) (base : String) :
    ∃ more : String, unusedName taken base = base ++ more
      ∧ more.toList.all isIdentifierChar = true := by
  obtain ⟨k, -, -, hk, -⟩ := unusedName_first taken base
  rw [hk]
  exact exists_numbered_eq base k

/-! ## Temporaries -/

/-- A node has a number of digits, if the number in its place is. -/
theorem isDigit_of_mem_number {n : Node} {other : String}
    (hother : ∀ c ∈ other.toList, c.isDigit = true) {c : Char}
    (hc : c ∈ (n.numericSuffix?.getD other).toList) : c.isDigit = true := by
  cases hsuffix : n.numericSuffix? with
  | none =>
      rw [hsuffix] at hc
      exact hother c hc
  | some number =>
      rw [hsuffix] at hc
      exact isDigit_of_mem_numericSuffix? hsuffix hc

/-- The first text that is not empty is one of those, or the last one. -/
theorem firstNonEmpty_cases (last : String) (texts : List String) :
    firstNonEmpty last texts = last
      ∨ firstNonEmpty last texts ∈ texts ∧ (firstNonEmpty last texts).isEmpty = false := by
  rw [firstNonEmpty]
  cases hfound : texts.find? (!·.isEmpty) with
  | none => exact Or.inl rfl
  | some text =>
      have hne := List.find?_some hfound
      rw [Bool.not_eq_true'] at hne
      exact Or.inr ⟨List.mem_of_find?_eq_some hfound, hne⟩

/-- The stem of a definition is a small letter, with small letters and digits
    behind it. -/
theorem nameStem_chars (d : Definition) : ∃ c cs, (nameStem d).toList = c :: cs
    ∧ c.isLower = true ∧ ∀ x ∈ cs, isSlugChar x = true := by
  have hstem : ∀ c ∈ (firstNonEmpty "node" [slug d.name, slug d.id]).toList,
      isSlugChar c = true := by
    intro c hc
    rcases firstNonEmpty_cases "node" [slug d.name, slug d.id] with hlast | ⟨hmem, -⟩
    · rw [hlast] at hc
      exact List.all_eq_true.1 (by decide : "node".toList.all isSlugChar = true) c hc
    · rcases List.mem_cons.1 hmem with hname | hid
      · exact isSlugChar_of_mem_slug (hname ▸ hc)
      · exact isSlugChar_of_mem_slug (List.mem_singleton.1 hid ▸ hc)
  have hne : (firstNonEmpty "node" [slug d.name, slug d.id]).toList ≠ [] := by
    intro hnil
    rw [String.toList_eq_nil_iff] at hnil
    rcases firstNonEmpty_cases "node" [slug d.name, slug d.id] with hlast | ⟨-, hsome⟩
    · exact absurd (hlast.symm.trans hnil) (by decide)
    · exact String.isEmpty_eq_false_iff.1 hsome hnil
  rw [nameStem, String.toList_ofList]
  generalize (firstNonEmpty "node" [slug d.name, slug d.id]).toList = stem at hstem hne
  cases stem with
  | nil => exact absurd rfl hne
  | cons c cs =>
      rw [guardDigit]
      split
      · exact ⟨'n', c :: cs, rfl, by decide, hstem⟩
      · next hdigit =>
        rw [List.forall_mem_cons] at hstem
        exact ⟨c, cs, rfl, (Bool.or_eq_true_iff.1 hstem.1).resolve_right hdigit, hstem.2⟩

/-- **A stem is a word without an underscore.** -/
theorem nameStem_parts (d : Definition) :
    isWord (nameStem d).toList = true ∧ '_' ∉ (nameStem d).toList := by
  obtain ⟨c, cs, heq, hc, hcs⟩ := nameStem_chars d
  have hall : ∀ x ∈ c :: cs, isSlugChar x = true :=
    List.forall_mem_cons.2 ⟨Bool.or_eq_true_iff.2 (Or.inl hc), hcs⟩
  rw [heq]
  constructor
  · have hchars : (c :: cs).all isIdentifierChar = true := by
      refine List.all_eq_true.2 fun x hx => ?_
      rw [isIdentifierChar, isAlphanum_of_isSlugChar (hall x hx)]
      rfl
    have hdigit : c.isDigit = false := isDigit_of_isLower hc
    rw [List.all_cons, Bool.and_eq_true] at hchars
    rw [isWord, hchars.1, hchars.2, hdigit]
    rfl
  · intro hmem
    cases hall '_' hmem

theorem isDigit_of_mem_nodeNumber {n : Node} {position : Nat} {c : Char}
    (hc : c ∈ (nodeNumber n position).toList) : c.isDigit = true :=
  isDigit_of_mem_number (fun _ h => isDigit_of_mem_repr h) hc

/-- The parts of a name for an output: a stem, a number, and an identifier that
    may have more behind it. -/
theorem unusedName_parts (d : Definition) (n : Node) (position : Nat) (p : Param)
    (taken : List String) : ∃ more : List Char,
      (unusedName taken (wantedName d n position p)).toList
        = (nameStem d).toList ++ '_' :: ((nodeNumber n position).toList
          ++ '_' :: ((identifier p.id).toList ++ more))
      ∧ isWord ((identifier p.id).toList ++ more) = true := by
  obtain ⟨more, hname, hmore⟩ := exists_unusedName_eq taken (wantedName d n position p)
  refine ⟨more.toList, ?_, isWord_append (isWord_identifier p.id) hmore⟩
  rw [hname, wantedName]
  simp only [String.toList_append, List.append_assoc]
  rfl

/-- **A name that is given to an output has three parts**, of which the last is no
    number. -/
theorem madeUp_unusedName (d : Definition) (n : Node) (position : Nat) (p : Param)
    (taken : List String) : MadeUp .temporary (unusedName taken (wantedName d n position p)) := by
  obtain ⟨more, hparts, hlast⟩ := unusedName_parts d n position p taken
  obtain ⟨hword, hstem⟩ := nameStem_parts d
  have hmade := madeUp_three_parts hparts hword hstem (fun c hc => isDigit_of_mem_nodeNumber hc)
    (all_isIdentifierChar_of_isWord hlast)
  rw [if_pos hlast] at hmade
  exact hmade

/-- **The name of an output** has three parts, the last of them a word. -/
theorem madeUp_of_name? {b : Blueprint} {catalog : Catalog} {e : Endpoint} {t : String}
    (h : (Temporaries.allocate b catalog).name? e = some t) : MadeUp .temporary t := by
  have hall : ∀ x ∈ Temporaries.allocate b catalog, MadeUp .temporary x.2 := by
    refine Temporaries.foldl_addNode_induction
      (P := fun ts => ∀ x ∈ ts, MadeUp .temporary x.2) ?_ (by simp)
    intro ts d n position p _ _ hts
    exact Temporaries.forall_mem_add hts (madeUp_unusedName d n position p _)
  exact hall (e, t) (Temporaries.mem_of_name? h)

/-! ## Tasks and loops -/

/-- The number in the names of the tasks and the index of a node. -/
def Node.numeral (n : Node) : String := n.numericSuffix?.getD "0"

theorem isDigit_of_mem_numeral {n : Node} {c : Char} (hc : c ∈ n.numeral.toList) :
    c.isDigit = true :=
  isDigit_of_mem_number (List.all_eq_true.1 (by decide)) hc

/-- **The name of a task** has three parts, the last of them led by a digit. -/
theorem madeUp_task (n : Node) (k : Nat) (taken : List String) :
    MadeUp .task (unusedName taken ("task_" ++ n.numeral ++ "_" ++ Nat.repr k)) := by
  obtain ⟨more, hname, hmore⟩ :=
    exists_unusedName_eq taken ("task_" ++ n.numeral ++ "_" ++ Nat.repr k)
  have hrepr : ∀ c ∈ (Nat.repr k).toList, c.isDigit = true := fun c hc => isDigit_of_mem_repr hc
  have hlast : isWord ((Nat.repr k).toList ++ more.toList) = false := by
    cases hdigits : (Nat.repr k).toList with
    | nil => exact absurd hdigits (repr_ne_nil k)
    | cons c cs =>
        rw [List.cons_append, isWord, hrepr c (hdigits ▸ List.mem_cons_self)]
        rfl
  have hchars : ((Nat.repr k).toList ++ more.toList).all isIdentifierChar = true := by
    rw [List.all_append, all_isIdentifierChar_of_digits hrepr, hmore]
    rfl
  have hparts : (unusedName taken ("task_" ++ n.numeral ++ "_" ++ Nat.repr k)).toList
      = "task".toList ++ '_' :: (n.numeral.toList
        ++ '_' :: ((Nat.repr k).toList ++ more.toList)) := by
    rw [hname]
    simp only [String.toList_append, List.append_assoc]
    rfl
  have hmade := madeUp_three_parts hparts (by decide) (by decide)
    (fun c hc => isDigit_of_mem_numeral hc) hchars
  rw [if_neg (Bool.eq_false_iff.1 hlast)] at hmade
  exact hmade

/-- **The index of a loop** that has no output for it has two parts. -/
theorem madeUp_index (n : Node) : MadeUp .index ("index_" ++ n.numeral) := by
  have hparts : ("index_" ++ n.numeral).toList = "index".toList ++ '_' :: n.numeral.toList := by
    rw [String.toList_append]
    rfl
  exact madeUp_two_parts hparts (by decide) (by decide) fun c hc => isDigit_of_mem_numeral hc

/-! ## Helpers -/

/-- **The name of a helper** has one part. -/
theorem madeUp_helper (h : Helper) : MadeUp .plain h.name := by
  have hall : ∀ h ∈ Helper.all, isBindable h.name = true ∧ nameSort h.name = .plain := by
    decide
  exact ⟨(hall h h.mem_all).1, (hall h h.mem_all).2⟩

end Blueprints
