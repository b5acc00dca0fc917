import Mathlib.Data.List.Forall2
import Mathlib.Data.List.TakeWhile
import Blueprints.Text.Identifier
import Blueprints.Text.Numeral

/-! # Names that code can bind

    Code can bind a *word* that is not reserved: letters, digits, underscores
    and dollar signs, not led by a digit.  Free text becomes a word as an
    identifier (`isWord_identifier`), which may be reserved and may be that of
    another text (`identifierChars_eq_iff`).

    A name with an underscore is never reserved (`isBindable_of_underscore`).
    Such names are made of two parts or of three, a stem, a number and a last
    one, and the sort of a name tells how it is made (`madeUp_two_parts`,
    `madeUp_three_parts`). -/

namespace Blueprints.Text

/-- The words that the code of a module cannot bind. -/
def reservedWords : List String :=
  ["arguments", "await", "break", "case", "catch", "class", "const", "continue", "debugger",
    "default", "delete", "do", "else", "enum", "eval", "export", "extends", "false", "finally",
    "for", "function", "if", "implements", "import", "in", "instanceof", "interface", "let", "new",
    "null", "package", "private", "protected", "public", "return", "static", "super", "switch",
    "this", "throw", "true", "try", "typeof", "var", "void", "while", "with", "yield"]

/-- Whether characters are a word. -/
def isWord : List Char → Bool
  | [] => false
  | c :: cs => !c.isDigit && isIdentifierChar c && cs.all isIdentifierChar

/-- Whether code can bind a name. -/
def isBindable (name : String) : Bool :=
  isWord name.toList && !reservedWords.contains name

theorem isBindable_iff {name : String} :
    isBindable name = true ↔ isWord name.toList = true ∧ name ∉ reservedWords := by
  rw [isBindable, Bool.and_eq_true, Bool.not_eq_true', ← Bool.not_eq_true, List.contains_iff_mem]

/-! ## Words -/

theorem isIdentifierChar_of_isDigit {c : Char} (h : c.isDigit = true) :
    isIdentifierChar c = true := by
  simp [isIdentifierChar, Char.isAlphanum, h]

/-- A word is made of characters of identifiers. -/
theorem all_isIdentifierChar_of_isWord {cs : List Char} (h : isWord cs = true) :
    cs.all isIdentifierChar = true := by
  cases cs with
  | nil => rfl
  | cons c cs =>
      rw [isWord, Bool.and_eq_true, Bool.and_eq_true] at h
      rw [List.all_cons, h.1.2, h.2]
      rfl

/-- A word goes on with such characters. -/
theorem isWord_append {cs ds : List Char} (hcs : isWord cs = true)
    (hds : ds.all isIdentifierChar = true) : isWord (cs ++ ds) = true := by
  cases cs with
  | nil => cases hcs
  | cons c cs =>
      rw [isWord, Bool.and_eq_true] at hcs
      rw [List.cons_append, isWord, List.all_append, hcs.1, hcs.2, hds]
      rfl

/-- What stands ahead of a word has to be one itself, or nothing. -/
theorem isWord_append_iff {cs ds : List Char} (hds : isWord ds = true) :
    isWord (cs ++ ds) = true ↔ cs = [] ∨ isWord cs = true := by
  cases cs with
  | nil => exact iff_of_true hds (Or.inl rfl)
  | cons c cs =>
      rw [List.cons_append, isWord, isWord, List.all_append, all_isIdentifierChar_of_isWord hds,
        Bool.and_true]
      exact (or_iff_right (List.cons_ne_nil c cs)).symm

/-- A word of letters and digits, led by a mark in place of a digit. -/
theorem isWord_guardDigit {mark : Char} (hmark : isWord [mark] = true) {cs : List Char}
    (hne : cs ≠ []) (hcs : cs.all isIdentifierChar = true) :
    isWord (guardDigit mark cs) = true := by
  cases cs with
  | nil => exact absurd rfl hne
  | cons c cs =>
      rw [guardDigit]
      split
      · exact isWord_append hmark hcs
      · next hdigit =>
        rw [List.all_cons, Bool.and_eq_true] at hcs
        rw [isWord, hcs.1, hcs.2, Bool.eq_false_iff.2 hdigit]
        rfl

/-- Every character becomes one of identifiers. -/
theorem isIdentifierChar_identifierChar (c : Char) : isIdentifierChar (identifierChar c) = true := by
  rw [identifierChar]
  split
  · assumption
  · rfl

/-- The characters of a slug: small letters and digits. -/
def isSlugChar (c : Char) : Bool := c.isLower || c.isDigit

theorem isAlphanum_of_isSlugChar {c : Char} (h : isSlugChar c = true) : c.isAlphanum = true := by
  show ((c.isUpper || c.isLower) || c.isDigit) = true
  rw [Bool.or_assoc, show (c.isLower || c.isDigit) = true from h, Bool.or_true]

theorem isDigit_of_isLower {c : Char} (h : c.isLower = true) : c.isDigit = false := by
  have hfirst : 97 ≤ c.val.toNat := of_decide_eq_true (Bool.and_eq_true_iff.1 h).1
  refine Bool.eq_false_iff.2 fun hdigit => ?_
  have hlast : c.val.toNat ≤ 57 := of_decide_eq_true (Bool.and_eq_true_iff.1 hdigit).2
  omega

/-- A letter or digit becomes one of a slug when it is made small. -/
theorem isSlugChar_toLower {c : Char} (h : c.isAlphanum = true) : isSlugChar c.toLower = true := by
  delta Char.toLower
  split
  · next hupper =>
    -- a capital becomes the small letter that stands 32 behind it
    rw [ge_iff_le, UInt32.le_iff_toNat_le, UInt32.le_iff_toNat_le] at hupper
    obtain ⟨hfirst, hlast⟩ : 65 ≤ c.val.toNat ∧ c.val.toNat ≤ 90 := hupper
    have hval : (c.val + 32).toNat = c.val.toNat + 32 := by
      rw [UInt32.toNat_add]
      exact Nat.mod_eq_of_lt (show c.val.toNat + 32 < 2 ^ 32 by omega)
    have hlower : (97 : UInt32) ≤ c.val + 32 ∧ c.val + 32 ≤ (122 : UInt32) := by
      rw [UInt32.le_iff_toNat_le, UInt32.le_iff_toNat_le, hval]
      show 97 ≤ c.val.toNat + 32 ∧ c.val.toNat + 32 ≤ 122
      omega
    refine Bool.or_eq_true_iff.2 (Or.inl ?_)
    exact Bool.and_eq_true_iff.2 ⟨decide_eq_true hlower.1, decide_eq_true hlower.2⟩
  · next hupper =>
    have hcapital : c.isUpper = false := decide_eq_false hupper
    have hsome : ((c.isUpper || c.isLower) || c.isDigit) = true := h
    rw [hcapital, Bool.false_or] at hsome
    exact hsome

/-- A slug has small letters and digits only. -/
theorem isSlugChar_of_mem_slug {name : String} {c : Char} (h : c ∈ (slug name).toList) :
    isSlugChar c = true := by
  rw [slug, String.toList_ofList] at h
  obtain ⟨c, hc, rfl⟩ := List.mem_map.1 h
  exact isSlugChar_toLower (List.mem_filter.1 hc).2

/-- **An identifier is a word.** -/
theorem isWord_identifier (name : String) : isWord (identifier name).toList = true := by
  rw [identifier, String.toList_ofList, identifierChars]
  split
  · rfl
  · next hne =>
    refine isWord_guardDigit rfl hne ?_
    rw [List.all_map, List.all_eq_true]
    exact fun c _ => isIdentifierChar_identifierChar c

/-- **No reserved word has an underscore.** -/
theorem isBindable_of_underscore {name : String} (hword : isWord name.toList = true)
    (hname : '_' ∈ name.toList) : isBindable name = true := by
  have hreserved : ∀ word ∈ reservedWords, '_' ∉ word.toList := by decide
  exact isBindable_iff.2 ⟨hword, fun hmem => hreserved name hmem hname⟩

/-! ## Names that become the same identifier -/

/-- Whether an identifier keeps a character as it stands: a letter, a digit or a
    dollar sign.  Any other stands as an underscore. -/
def isKept (c : Char) : Bool := c.isAlphanum || c == '$'

/-- Characters that stand alike in an identifier. -/
def Alike (c d : Char) : Prop := c = d ∨ isKept c = false ∧ isKept d = false

/-- Whether characters start with a digit. -/
def leadsWithDigit : List Char → Bool
  | [] => false
  | c :: _ => c.isDigit

/-- Names that become the same identifier.  They are alike character by
    character; or one of them starts with a digit, and the other has a
    character that is not kept ahead of it. -/
inductive Meet : List Char → List Char → Prop where
  | alike {cs ds : List Char} (h : List.Forall₂ Alike cs ds) : Meet cs ds
  | ahead {c : Char} {cs ds : List Char} (hc : isKept c = false) (hdigit : leadsWithDigit ds = true)
      (h : List.Forall₂ Alike ds cs) : Meet (c :: cs) ds
  | behind {d : Char} {cs ds : List Char} (hd : isKept d = false) (hdigit : leadsWithDigit cs = true)
      (h : List.Forall₂ Alike cs ds) : Meet cs (d :: ds)

theorem isDigit_of_not_isKept {c : Char} (h : isKept c = false) : c.isDigit = false := by
  have halphanum : ((c.isUpper || c.isLower) || c.isDigit) = false := (Bool.or_eq_false_iff.1 h).1
  exact (Bool.or_eq_false_iff.1 halphanum).2

/-- A character that is kept stands as it is. -/
theorem identifierChar_of_isKept {c : Char} (h : isKept c = true) : identifierChar c = c := by
  rw [identifierChar, if_pos]
  rw [isKept, Bool.or_eq_true] at h
  rcases h with h | h
  · simp [isIdentifierChar, h]
  · simp [isIdentifierChar, h]

/-- An underscore stands for what is not kept, itself among it. -/
theorem identifierChar_eq_underscore_iff {c : Char} :
    identifierChar c = '_' ↔ isKept c = false := by
  cases hkept : isKept c with
  | true =>
      rw [identifierChar_of_isKept hkept]
      simp only [Bool.true_eq_false, iff_false]
      rintro rfl
      cases hkept
  | false =>
      simp only [iff_true]
      rw [identifierChar]
      split
      · next hc =>
        simpa [isIdentifierChar, Bool.or_eq_false_iff.1 hkept] using hc
      · rfl

/-- **Characters become the same exactly if they are alike.** -/
theorem identifierChar_eq_iff {c d : Char} : identifierChar c = identifierChar d ↔ Alike c d := by
  rw [Alike]
  cases hc : isKept c with
  | false =>
      rw [identifierChar_eq_underscore_iff.2 hc, eq_comm, identifierChar_eq_underscore_iff]
      simp only [true_and, iff_or_self]
      rintro rfl
      exact hc
  | true =>
      rw [identifierChar_of_isKept hc]
      simp only [Bool.true_eq_false, false_and, or_false]
      cases hd : isKept d with
      | true => rw [identifierChar_of_isKept hd]
      | false =>
          rw [identifierChar_eq_underscore_iff.2 hd]
          refine iff_of_false ?_ ?_
          · rintro rfl
            cases hc
          · rintro rfl
            rw [hc] at hd
            cases hd

/-- Texts become the same, character by character, exactly if they are alike so. -/
theorem map_identifierChar_eq_iff {cs ds : List Char} :
    cs.map identifierChar = ds.map identifierChar ↔ List.Forall₂ Alike cs ds := by
  rw [← List.forall₂_eq_eq_eq, List.forall₂_map_left_iff, List.forall₂_map_right_iff]
  simp only [identifierChar_eq_iff]

/-- An identifier is led by a digit if its text is. -/
theorem leadsWithDigit_map {cs : List Char} :
    leadsWithDigit (cs.map identifierChar) = leadsWithDigit cs := by
  cases cs with
  | nil => rfl
  | cons c cs =>
      show (identifierChar c).isDigit = c.isDigit
      cases hkept : isKept c with
      | true => rw [identifierChar_of_isKept hkept]
      | false =>
          rw [identifierChar_eq_underscore_iff.2 hkept, isDigit_of_not_isKept hkept]
          rfl

theorem leadsWithDigit_eq_of_alike {cs ds : List Char} (h : List.Forall₂ Alike cs ds) :
    leadsWithDigit cs = leadsWithDigit ds := by
  rw [← leadsWithDigit_map, map_identifierChar_eq_iff.2 h, leadsWithDigit_map]

/-- An identifier is the name with its characters replaced, behind an underscore
    if the name starts with a digit. -/
theorem identifierChars_eq {cs : List Char} (hcs : cs ≠ []) :
    identifierChars cs = if leadsWithDigit cs then '_' :: cs.map identifierChar
      else cs.map identifierChar := by
  rw [← leadsWithDigit_map]
  cases cs with
  | nil => exact absurd rfl hcs
  | cons c cs => rfl

/-- A name that is not led by a digit and becomes an underscore and more. -/
theorem map_eq_underscore_iff {cs : List Char} {ds : List Char} :
    '_' :: cs.map identifierChar = ds.map identifierChar
      ↔ ∃ d rest, ds = d :: rest ∧ isKept d = false ∧ List.Forall₂ Alike cs rest := by
  cases ds with
  | nil => simp
  | cons d rest =>
      rw [List.map_cons, List.cons.injEq, eq_comm, identifierChar_eq_underscore_iff,
        map_identifierChar_eq_iff]
      simp

/-- **When names become the same identifier.** -/
theorem identifierChars_eq_iff {cs ds : List Char} (hcs : cs ≠ []) (hds : ds ≠ []) :
    identifierChars cs = identifierChars ds ↔ Meet cs ds := by
  rw [identifierChars_eq hcs, identifierChars_eq hds]
  constructor
  · intro h
    cases hc : leadsWithDigit cs with
    | true =>
        cases hd : leadsWithDigit ds with
        | true =>
            rw [if_pos hc, if_pos hd] at h
            exact .alike (map_identifierChar_eq_iff.1 (List.cons.inj h).2)
        | false =>
            rw [if_pos hc, if_neg (by simp [hd])] at h
            obtain ⟨d, rest, rfl, hkept, halike⟩ := map_eq_underscore_iff.1 h
            exact .behind hkept hc halike
    | false =>
        cases hd : leadsWithDigit ds with
        | true =>
            rw [if_neg (by simp [hc]), if_pos hd] at h
            obtain ⟨c, rest, rfl, hkept, halike⟩ := map_eq_underscore_iff.1 h.symm
            exact .ahead hkept hd halike
        | false =>
            rw [if_neg (by simp [hc]), if_neg (by simp [hd])] at h
            exact .alike (map_identifierChar_eq_iff.1 h)
  · intro h
    cases h with
    | alike h => rw [leadsWithDigit_eq_of_alike h, map_identifierChar_eq_iff.2 h]
    | ahead hc hdigit h =>
        rw [if_neg (by simp [leadsWithDigit, isDigit_of_not_isKept hc]), if_pos hdigit]
        exact (map_eq_underscore_iff.2 ⟨_, _, rfl, hc, h⟩).symm
    | behind hd hdigit h =>
        rw [if_pos hdigit, if_neg (by simp [leadsWithDigit, isDigit_of_not_isKept hd])]
        exact map_eq_underscore_iff.2 ⟨_, _, rfl, hd, h⟩

/-- Texts that start with names that meet differ, unless the names are the same:
    these are of the same length, or one is led by a digit and the other is
    not. -/
theorem Meet.eq_of_append {cs ds rest rest' : List Char} (h : Meet cs ds)
    (hsame : cs ++ rest = ds ++ rest') : cs = ds := by
  have hled : ∀ {c : Char} {cs ds rest rest' : List Char}, isKept c = false →
      leadsWithDigit ds = true → c :: cs ++ rest ≠ ds ++ rest' := by
    intro c cs ds rest rest' hc hdigit hsame
    cases ds with
    | nil => cases hdigit
    | cons d ds =>
        obtain rfl : c = d := (List.cons.inj hsame).1
        exact Bool.eq_false_iff.1 (isDigit_of_not_isKept hc) hdigit
  cases h with
  | alike h => exact (List.append_inj hsame h.length_eq).1
  | ahead hc hdigit h => exact absurd hsame (hled hc hdigit)
  | behind hd hdigit h => exact absurd hsame.symm (hled hd hdigit)

/-! ## Numbers -/

theorem isDigit_of_mem_repr {n : Nat} {c : Char} (h : c ∈ (Nat.repr n).toList) :
    c.isDigit = true := by
  rw [Nat.repr_eq_ofList_toDigits, String.toList_ofList] at h
  exact Nat.isDigit_of_mem_toDigits (by decide) (by decide) h

theorem repr_ne_nil (n : Nat) : (Nat.repr n).toList ≠ [] := by
  rw [Nat.repr_eq_ofList_toDigits, String.toList_ofList]
  exact Nat.toDigits_ne_nil

/-- The number at the end of an id is made of digits. -/
theorem isDigit_of_mem_numericSuffix? {id number : String} (h : numericSuffix? id = some number)
    {c : Char} (hc : c ∈ number.toList) : c.isDigit = true := by
  rw [numericSuffix?] at h
  split at h
  · cases h
  · next d ds hdigits =>
    cases h
    rw [String.toList_ofList, ← hdigits, trailingDigits, List.mem_reverse] at hc
    exact List.mem_takeWhile_imp hc

/-- The number at the end of an id has a digit. -/
theorem numericSuffix?_ne_nil {id number : String} (h : numericSuffix? id = some number) :
    number.toList ≠ [] := by
  rw [numericSuffix?] at h
  split at h
  · cases h
  · next d ds _ =>
    cases h
    rw [String.toList_ofList]
    exact List.cons_ne_nil d ds

/-! ## Parts -/

/-- What stands behind the first underscore, if there is one. -/
def behind? (cs : List Char) : Option (List Char) :=
  match cs.dropWhile (· != '_') with
  | [] => none
  | _ :: rest => some rest

/-- How many parts a name has: one, two, or three of which the last is a word or
    is led by a digit. -/
inductive NameSort where
  | plain
  | index
  | temporary
  | task
  deriving DecidableEq

/-- The sort of a name. -/
def nameSort (name : String) : NameSort :=
  match behind? name.toList with
  | none => .plain
  | some rest =>
    match behind? rest with
    | none => .index
    | some last => if isWord last then .temporary else .task

theorem ne_underscore {cs : List Char} (h : '_' ∉ cs) : ∀ c ∈ cs, (c != '_') = true := by
  intro c hc
  rw [bne_iff_ne]
  rintro rfl
  exact h hc

theorem behind?_append {cs : List Char} (h : '_' ∉ cs) (rest : List Char) :
    behind? (cs ++ '_' :: rest) = some rest := by
  rw [behind?, List.dropWhile_append_of_pos (ne_underscore h),
    List.dropWhile_cons_of_neg (by simp)]

theorem behind?_eq_none {cs : List Char} (h : '_' ∉ cs) : behind? cs = none := by
  rw [behind?, List.dropWhile_eq_nil_iff.2 (ne_underscore h)]

theorem underscore_not_mem_digits {cs : List Char} (h : ∀ c ∈ cs, c.isDigit = true) : '_' ∉ cs := by
  intro hmem
  cases h '_' hmem

theorem all_isIdentifierChar_of_digits {cs : List Char} (h : ∀ c ∈ cs, c.isDigit = true) :
    cs.all isIdentifierChar = true :=
  List.all_eq_true.2 fun c hc => isIdentifierChar_of_isDigit (h c hc)

/-- A name that code can bind, of a sort. -/
structure MadeUp (sort : NameSort) (name : String) : Prop where
  bindable : isBindable name = true
  sort_eq : nameSort name = sort

section Parts

variable {name : String} {stem number last : List Char}

/-- A word, an underscore and a rest. -/
theorem isBindable_of_stem {rest : List Char} (hname : name.toList = stem ++ '_' :: rest)
    (hword : isWord stem = true) (hrest : rest.all isIdentifierChar = true) :
    isBindable name = true := by
  refine isBindable_of_underscore ?_ ?_
  · rw [hname]
    refine isWord_append hword ?_
    rw [List.all_cons, hrest]
    rfl
  · rw [hname]
    exact List.mem_append_right _ List.mem_cons_self

/-- **A name of two parts**, a stem and a number. -/
theorem madeUp_two_parts (hname : name.toList = stem ++ '_' :: number)
    (hword : isWord stem = true) (hstem : '_' ∉ stem)
    (hnumber : ∀ c ∈ number, c.isDigit = true) : MadeUp .index name := by
  refine ⟨isBindable_of_stem hname hword (all_isIdentifierChar_of_digits hnumber), ?_⟩
  rw [nameSort, hname, behind?_append hstem]
  dsimp only
  rw [behind?_eq_none (underscore_not_mem_digits hnumber)]

/-- **A name of three parts**, a stem, a number and a last one. -/
theorem madeUp_three_parts (hname : name.toList = stem ++ '_' :: (number ++ '_' :: last))
    (hword : isWord stem = true) (hstem : '_' ∉ stem)
    (hnumber : ∀ c ∈ number, c.isDigit = true) (hlast : last.all isIdentifierChar = true) :
    MadeUp (if isWord last then .temporary else .task) name := by
  have hrest : (number ++ '_' :: last).all isIdentifierChar = true := by
    rw [List.all_append, List.all_cons, all_isIdentifierChar_of_digits hnumber, hlast]
    rfl
  refine ⟨isBindable_of_stem hname hword hrest, ?_⟩
  rw [nameSort, hname, behind?_append hstem]
  dsimp only
  rw [behind?_append (underscore_not_mem_digits hnumber)]

end Parts

end Blueprints.Text
