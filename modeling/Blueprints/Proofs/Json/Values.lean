import Blueprints.Proofs.Json.Reads

/-! # Values are read back

    A value that was read *fits* the levels of brackets that were left for it:
    its integers are in range, and the fields of its objects are in increasing
    order (`value_ensures`).  Every value that fits is read back, if the
    decimals of its floating point numbers are (`value_reads`). -/

namespace Blueprints

/-- The decimal that is written for a number is read as that number. -/
def Double.ReadsBack (x : Double) : Prop :=
  Json.number x.negative (Json.magnitudeChars x) = .ok (.float x, [])

instance (x : Double) : Decidable x.ReadsBack :=
  inferInstanceAs (Decidable (Json.number x.negative (Json.magnitudeChars x) = .ok (.float x, [])))

namespace Json

/-! ## Numbers -/

/-- An integer that is in range, or any floating point number. -/
def Number.InRange : Number → Prop
  | .int n => -(Nat.pow 2 63 : Int) ≤ n ∧ n < (integerLimit : Int)
  | .float _ => True

/-- A decimal is in range. -/
theorem floatOf_inRange {negative : Bool} {significand : Nat} {exponent : Int}
    {cs rest : List Char} {x : Number}
    (h : floatOf negative significand exponent cs = .ok (x, rest)) : x.InRange := by
  rw [floatOf] at h
  split at h
  · cases h
  · obtain ⟨rfl, -⟩ := Prod.mk.inj (Except.ok.inj h)
    exact trivial

/-- A number with an exponent is in range: it is a decimal. -/
theorem exponentPart_inRange {negative : Bool} {significand : Nat} {start : Int}
    {cs rest : List Char} {x : Number}
    (h : exponentPart negative significand start cs = .ok (x, rest)) : x.InRange := by
  rw [exponentPart] at h
  dsimp only at h
  split at h
  · exact nomatch h
  · split at h
    · split at h
      · exact floatOf_inRange h
      · split at h
        · exact nomatch h
        · obtain ⟨rfl, -⟩ := Prod.mk.inj (Except.ok.inj h)
          exact trivial
    · exact nomatch h

theorem floatEnd_inRange {negative : Bool} {significand : Nat} {exponent : Int}
    {cs rest : List Char} {x : Number}
    (h : floatEnd negative significand exponent cs = .ok (x, rest)) : x.InRange := by
  rw [floatEnd.eq_def] at h
  split at h
  · exact floatOf_inRange h
  · split at h
    · exact exponentPart_inRange h
    · exact floatOf_inRange h

/-- A whole number below the limit is in range, or becomes a decimal. -/
theorem wholeNumber_inRange (negative : Bool) {significand : Nat}
    (h : significand < integerLimit) : (wholeNumber negative significand).InRange := by
  rw [wholeNumber]
  split
  · split
    · exact trivial
    · next hlarge =>
      rw [not_or] at hlarge
      rw [Number.InRange]
      omega
  · rw [Number.InRange]
    omega

/-- **Every number that is read is in range.** -/
theorem numberEnd_inRange {negative : Bool} {significand dropped : Nat} {cs rest : List Char}
    {x : Number} (hsignificand : significand < integerLimit)
    (h : numberEnd negative significand dropped cs = .ok (x, rest)) : x.InRange := by
  rw [numberEnd.eq_def] at h
  split at h
  · rw [fractionPart] at h
    dsimp only at h
    split at h
    · split at h
      · cases h
      · cases h
    · exact floatEnd_inRange h
  · split at h
    · split at h
      · obtain ⟨rfl, -⟩ := Prod.mk.inj (Except.ok.inj h)
        exact wholeNumber_inRange negative hsignificand
      · split at h
        · exact exponentPart_inRange h
        · obtain ⟨rfl, -⟩ := Prod.mk.inj (Except.ok.inj h)
          exact wholeNumber_inRange negative hsignificand
    · exact floatEnd_inRange h

/-- **Integers that are read are in range.** -/
theorem number_inRange {negative : Bool} {cs rest : List Char} {x : Number}
    (h : number negative cs = .ok (x, rest)) : x.InRange := by
  have hzero : 0 < integerLimit := by decide
  rw [number.eq_def] at h
  split at h
  · exact nomatch h
  · split at h
    · split at h
      · exact numberEnd_inRange hzero h
      · split at h
        · exact nomatch h
        · exact numberEnd_inRange hzero h
    · split at h
      · next c r _ _ =>
        have hlt := absorb_lt hzero (c :: r.takeWhile Char.isDigit)
        exact numberEnd_inRange hlt h
      · exact nomatch h

/-- A number that is read begins with a digit. -/
theorem exists_digit_of_number {negative : Bool} {cs rest : List Char} {x : Number}
    (h : number negative cs = .ok (x, rest)) : ∃ c r, cs = c :: r ∧ c.isDigit = true := by
  rw [number.eq_def] at h
  split at h
  · exact nomatch h
  · next c r =>
    split at h
    · next hzero => exact ⟨c, r, rfl, eq_of_beq hzero ▸ rfl⟩
    · split at h
      · next hdigit => exact ⟨c, r, rfl, hdigit⟩
      · exact nomatch h

/-- The sign and the digits of a number. -/
def signed (negative : Bool) (digits : List Char) : List Char :=
  if negative then '-' :: digits else digits

/-- The value of a number. -/
def ofNumber : Number → Json
  | .int n => .int n
  | .float d => .float d

/-- A digit is none of the marks by which values are told apart. -/
theorem not_mark_of_isDigit {c : Char} (h : c.isDigit = true) :
    isSpace c = false ∧ c ≠ ']' ∧ c ≠ 'n' ∧ c ≠ 't' ∧ c ≠ 'f' ∧ c ≠ '-' := by
  refine ⟨?_, ?_, ?_, ?_, ?_, ?_⟩
  · cases hspace : isSpace c with
    | false => rfl
    | true =>
        rcases isSpace_iff.1 hspace with rfl | rfl | rfl | rfl
        · exact absurd h (by decide)
        · exact absurd h (by decide)
        · exact absurd h (by decide)
        · exact absurd h (by decide)
  · rintro rfl
    exact absurd h (by decide)
  · rintro rfl
    exact absurd h (by decide)
  · rintro rfl
    exact absurd h (by decide)
  · rintro rfl
    exact absurd h (by decide)
  · rintro rfl
    exact absurd h (by decide)

section Signed

variable {negative : Bool} {digits : List Char} {x : Number}
  (h : number negative digits = .ok (x, []))

include h

/-- A number that is read alone is read with its sign in front of more
    text. -/
theorem Reader.numberAs_signed (expected : Expected) {ws rest : List Char} (blank : Blank ws)
    (ends : Ends rest) :
    Reader.numberAs expected (ws ++ (signed negative digits ++ rest)) = .ok (x, rest) := by
  have hread := number_continues negative ends h
  rw [List.nil_append] at hread
  rw [Reader.numberAs, skipSpace_append blank]
  cases negative with
  | true =>
      have hskip : skipSpace (signed true digits ++ rest) = '-' :: (digits ++ rest) :=
        skipSpace_cons rfl _
      rw [hskip]
      exact hread
  | false =>
      obtain ⟨c, r, rfl, hdigit⟩ := exists_digit_of_number h
      obtain ⟨hspace, -, -, -, -, hminus⟩ := not_mark_of_isDigit hdigit
      have hskip : skipSpace (signed false (c :: r) ++ rest) = c :: (r ++ rest) :=
        skipSpace_cons hspace _
      rw [hskip]
      dsimp only
      rw [if_neg (by simpa using hminus), if_pos hdigit]
      exact hread

/-- **A number is read back as a value**, after white space and in front of what
    ends it. -/
theorem Reader.value_signed (k : Nat) {ws rest : List Char} (blank : Blank ws)
    (ends : Ends rest) :
    Reader.value k (ws ++ (signed negative digits ++ rest)) = .ok (ofNumber x, rest) := by
  have hread := number_continues negative ends h
  rw [List.nil_append] at hread
  rw [Reader.value.eq_def]
  dsimp only
  rw [skipSpace_append blank]
  cases negative with
  | true =>
      have hskip : skipSpace (signed true digits ++ rest) = '-' :: (digits ++ rest) :=
        skipSpace_cons rfl _
      rw [hskip]
      dsimp only
      rw [if_neg (by decide), if_neg (by decide), if_neg (by decide), if_pos (by decide),
        if_pos (by decide), hread]
      cases x with
      | int n => rfl
      | float d => rfl
  | false =>
      obtain ⟨c, r, rfl, hdigit⟩ := exists_digit_of_number h
      obtain ⟨hspace, -, hn, ht, hf, hminus⟩ := not_mark_of_isDigit hdigit
      have hminus' : ¬(c == '-') = true := by simpa using hminus
      have hskip : skipSpace (signed false (c :: r) ++ rest) = c :: (r ++ rest) :=
        skipSpace_cons hspace _
      rw [hskip]
      dsimp only
      rw [if_neg (by simpa using hn), if_neg (by simpa using ht), if_neg (by simpa using hf),
        if_pos (by simp [hdigit]), if_neg hminus',
        show number false (c :: (r ++ rest)) = _ from hread]
      cases x with
      | int n => rfl
      | float d => rfl

/-- A number begins with a digit or its sign. -/
theorem begins_signed {v : Json} (hv : ∀ depth, prettyChars depth v = signed negative digits) :
    Begins v := by
  intro depth
  rw [hv]
  cases negative with
  | true => exact ⟨'-', digits, rfl, rfl, by decide, fun h => absurd h (by decide)⟩
  | false =>
      obtain ⟨c, r, rfl, hdigit⟩ := exists_digit_of_number h
      obtain ⟨hspace, hbracket, hn, -⟩ := not_mark_of_isDigit hdigit
      exact ⟨c, r, rfl, hspace, hbracket, fun heq => absurd heq hn⟩

end Signed

/-- An integer in range is read back from its digits. -/
theorem number_natAbs {n : Int} (h : (Number.int n).InRange) :
    number (decide (n < 0)) (Nat.toDigits 10 n.natAbs) = .ok (.int n, []) := by
  obtain ⟨hlow, hhigh⟩ := h
  have hlimit : integerLimit = 2 * Nat.pow 2 63 := by decide
  rw [number_toDigits _ (by omega), wholeNumber]
  split
  · next hnegative =>
    have hlt : n < 0 := of_decide_eq_true hnegative
    rw [if_neg (by omega)]
    exact congrArg (fun n => Except.ok (Number.int n, [])) (by omega)
  · next hnegative =>
    have hge : ¬n < 0 := fun hlt => hnegative (decide_eq_true hlt)
    exact congrArg (fun n => Except.ok (Number.int n, [])) (by omega)

theorem prettyChars_int (depth : Nat) (n : Int) :
    prettyChars depth (.int n) = signed (decide (n < 0)) (Nat.toDigits 10 n.natAbs) := by
  show intChars n = _
  rw [intChars, signed]
  split
  · next h => rw [if_pos (decide_eq_true h)]
  · next h => rw [if_neg (fun hlt => h (of_decide_eq_true hlt))]

theorem prettyChars_float (depth : Nat) (x : Double) :
    prettyChars depth (.float x) = signed x.negative (magnitudeChars x) := rfl

/-! ## Values that fit -/

/-- Fields in increasing order of their names. -/
def Sorted (fs : Fields) : Prop := fs.Pairwise fun f g => f.1 < g.1

/-- A value that can be read inside `k` levels of brackets. -/
inductive Fits : Nat → Json → Prop where
  | null (k : Nat) : Fits k .null
  | bool (k : Nat) (b : Bool) : Fits k (.bool b)
  | int (k : Nat) (n : Int) (inRange : (Number.int n).InRange) : Fits k (.int n)
  | float (k : Nat) (x : Double) : Fits k (.float x)
  | string (k : Nat) (s : String) : Fits k (.string s)
  | array {k : Nat} {vs : List Json} (items : ∀ v ∈ vs, Fits k v) : Fits (k + 1) (.array vs)
  | object {k : Nat} {fs : Fields} (sorted : Sorted fs) (values : ∀ f ∈ fs, Fits k f.2) :
      Fits (k + 1) (.object fs)

theorem fits_nil (k : Nat) : Fits (k + 1) (.object []) :=
  .object List.Pairwise.nil fun _ h => absurd h List.not_mem_nil

mutual

/-- The floating point numbers in a value. -/
def floats : Json → List Double
  | .float x => [x]
  | .array vs => floatsOfItems vs
  | .object fs => floatsOfFields fs
  | _ => []

/-- The floating point numbers in items. -/
def floatsOfItems : List Json → List Double
  | [] => []
  | v :: rest => floats v ++ floatsOfItems rest

/-- The floating point numbers in fields. -/
def floatsOfFields : List (String × Json) → List Double
  | [] => []
  | (_, v) :: rest => floats v ++ floatsOfFields rest

end

/-- The decimals of an item are those of its array. -/
theorem mem_floatsOfItems {vs : List Json} {v : Json} (hv : v ∈ vs) {x : Double}
    (hx : x ∈ v.floats) : x ∈ floatsOfItems vs := by
  induction vs with
  | nil => exact absurd hv List.not_mem_nil
  | cons w rest ih =>
      rw [floatsOfItems]
      rcases List.mem_cons.1 hv with rfl | hrest
      · exact List.mem_append_left _ hx
      · exact List.mem_append_right _ (ih hrest)

/-- The decimals of a field are those of its object. -/
theorem mem_floatsOfFields {fs : Fields} {f : String × Json} (hf : f ∈ fs) {x : Double}
    (hx : x ∈ f.2.floats) : x ∈ floatsOfFields fs := by
  induction fs with
  | nil => exact absurd hf List.not_mem_nil
  | cons g rest ih =>
      rw [floatsOfFields.eq_def]
      rcases List.mem_cons.1 hf with rfl | hrest
      · exact List.mem_append_left _ hx
      · exact List.mem_append_right _ (ih hrest)

/-! ## Tables -/

/-- A name larger than all others comes last. -/
theorem insert_of_lt {fs : Fields} {name : String} (v : Json) (h : ∀ f ∈ fs, f.1 < name) :
    Fields.insert name v fs = fs ++ [(name, v)] := by
  induction fs with
  | nil => rfl
  | cons f rest ih =>
      have hlt := h f (List.mem_cons_self ..)
      rw [Fields.insert, if_neg (String.lt_asymm hlt),
        if_neg fun heq : name = f.1 => absurd hlt (heq ▸ String.lt_irrefl name),
        ih fun g hg => h g (List.mem_cons_of_mem _ hg)]
      rfl

/-- What is inserted is all that is new. -/
theorem mem_insert {fs : Fields} {name : String} {v : Json} {f : String × Json}
    (h : f ∈ Fields.insert name v fs) : f = (name, v) ∨ f ∈ fs := by
  induction fs with
  | nil => exact Or.inl (List.mem_singleton.1 h)
  | cons g rest ih =>
      rw [Fields.insert] at h
      split at h
      · exact List.mem_cons.1 h
      · split at h
        · rcases List.mem_cons.1 h with rfl | hrest
          · exact Or.inl rfl
          · exact Or.inr (List.mem_cons_of_mem _ hrest)
        · rcases List.mem_cons.1 h with rfl | hrest
          · exact Or.inr (List.mem_cons_self ..)
          · rcases ih hrest with heq | hmem
            · exact Or.inl heq
            · exact Or.inr (List.mem_cons_of_mem _ hmem)

/-- **To insert a field keeps the fields in order.** By induction on the fields. -/
theorem sorted_insert {fs : Fields} (h : Sorted fs) (name : String) (v : Json) :
    Sorted (Fields.insert name v fs) := by
  induction fs with
  | nil => exact List.pairwise_singleton ..
  | cons g rest ih =>
      obtain ⟨hfirst, hrest⟩ := List.pairwise_cons.1 h
      rw [Fields.insert]
      split
      · next hlt =>
        refine List.pairwise_cons.2 ⟨fun f hf => ?_, h⟩
        rcases List.mem_cons.1 hf with rfl | hf
        · exact hlt
        · exact String.lt_trans hlt (hfirst f hf)
      · next hnot =>
        split
        · next heq => exact List.pairwise_cons.2 ⟨fun f hf => heq ▸ hfirst f hf, hrest⟩
        · next hne =>
          refine List.pairwise_cons.2 ⟨fun f hf => ?_, ih hrest⟩
          rcases mem_insert hf with rfl | hmem
          · exact Std.lt_of_le_of_ne hnot (Ne.symm hne)
          · exact hfirst f hmem

namespace Reader

/-- Takes a field of a table, inside `k` levels of brackets. -/
def tableField (k : Nat) (fs : Fields) (name : String) : Reader Fields := fun cs =>
  (afterColon (value k) cs).map fun (v, rest) => (fs.insert name v, rest)

/-- Fields in increasing order are taken one behind the other. -/
theorem takes_tableField {k : Nat} {done fs : Fields} (sorted : Sorted (done ++ fs))
    (h : ∀ f ∈ fs, Reads (value k) f.2 f.2) : Takes (tableField k) done fs (done ++ fs) := by
  induction fs generalizing done with
  | nil => exact (List.append_nil done).symm ▸ .nil done
  | cons f rest ih =>
      have hbefore : ∀ g ∈ done, g.1 < f.1 := fun g hg =>
        (List.pairwise_append.1 sorted).2.2 g hg f (List.mem_cons_self ..)
      have hsplit : done ++ f :: rest = (done ++ [f]) ++ rest := by simp
      rw [hsplit] at sorted ⊢
      refine .cons (fun depth rest ends => ?_)
        (ih sorted fun g hg => h g (List.mem_cons_of_mem _ hg))
      rw [tableField, (h f (List.mem_cons_self ..)).afterColon depth ends]
      exact congrArg (fun fs => Except.ok (fs, rest)) (insert_of_lt f.2 hbefore)

/-- **A table is read back**, if its fields are in order and their values are read
    back. -/
theorem objectRest_tableField {k depth : Nat} {ws : List Char} (blank : Blank ws) {fs : Fields}
    (sorted : Sorted fs) (h : ∀ f ∈ fs, Reads (value k) f.2 f.2) (rest : List Char) :
    objectRest stringRest (tableField k) [] (prettyFields depth fs ++ (ws ++ '\x7d' :: rest))
      = .ok (fs, rest) := by
  have htakes : Takes (tableField k) [] fs ([] ++ fs) := takes_tableField sorted h
  rw [objectRest, fields_takes depth blank htakes (length_lt_object depth fs rest)]
  dsimp only
  rw [closeObject_blank blank]
  rfl

/-! ## Any value -/

section Any

variable {k : Nat} {cs r : List Char}

theorem value_null (h : skipSpace cs = 'n' :: r) :
    value k cs = (nullRest r).map fun rest => (.null, rest) := by
  rw [value.eq_def]
  dsimp only
  rw [h]
  rfl

theorem value_true (h : skipSpace cs = 't' :: r) :
    value k cs = (trueRest r).map fun rest => (.bool true, rest) := by
  rw [value.eq_def]
  dsimp only
  rw [h]
  rfl

theorem value_false (h : skipSpace cs = 'f' :: r) :
    value k cs = (falseRest r).map fun rest => (.bool false, rest) := by
  rw [value.eq_def]
  dsimp only
  rw [h]
  rfl

theorem value_string (h : skipSpace cs = '"' :: r) :
    value k cs = (stringRest r).map fun (s, rest) => (.string s, rest) := by
  rw [value.eq_def]
  dsimp only
  rw [h]
  rfl

theorem value_array (h : skipSpace cs = '[' :: r) :
    value (k + 1) cs = (arrayRest (value k) r).map fun (vs, rest) => (.array vs, rest) := by
  rw [value.eq_def]
  dsimp only
  rw [h]
  rfl

theorem value_object (h : skipSpace cs = '\x7b' :: r) :
    value (k + 1) cs
      = (objectRest stringRest (tableField k) [] r).map fun (fs, rest) => (.object fs, rest) := by
  rw [value.eq_def]
  dsimp only
  rw [h]
  rfl

end Any

/-- **Every value that fits is read back.** -/
theorem value_reads {k : Nat} {v : Json} (fits : Fits k v)
    (hfloats : ∀ x ∈ v.floats, x.ReadsBack) : Reads (value k) v v := by
  induction fits with
  | null k =>
      exact ⟨begins_null, fun depth ws rest blank ends =>
        value_null (begins_null.skipSpace depth blank rest)⟩
  | bool k b =>
      refine ⟨begins_bool b, fun depth ws rest blank ends => ?_⟩
      have hskip := (begins_bool b).skipSpace depth blank rest
      cases b with
      | true => exact value_true hskip
      | false => exact value_false hskip
  | int k n inRange =>
      have hnumber := number_natAbs inRange
      refine ⟨begins_signed hnumber fun depth => prettyChars_int depth n,
        fun depth ws rest blank ends => ?_⟩
      rw [prettyChars_int]
      exact value_signed hnumber k blank ends
  | float k x =>
      have hnumber : number x.negative (magnitudeChars x) = .ok (.float x, []) :=
        hfloats x (List.mem_singleton_self x)
      refine ⟨begins_signed hnumber fun depth => prettyChars_float depth x,
        fun depth ws rest blank ends => ?_⟩
      rw [prettyChars_float]
      exact value_signed hnumber k blank ends
  | string k s =>
      refine ⟨begins_string s, fun depth ws rest blank ends => ?_⟩
      have hskip : skipSpace (ws ++ (prettyChars depth (.string s) ++ rest))
          = '"' :: (s.toList.flatMap escapeChar ++ '"' :: rest) := by
        rw [(begins_string s).skipSpace depth blank, prettyChars_string]
      rw [value_string hskip, stringRest_chars]
      rfl
  | @array k vs items ih =>
      refine ⟨begins_array vs, fun depth ws rest blank ends => ?_⟩
      obtain ⟨ws', blank', hchars⟩ := prettyChars_array depth vs
      have hskip := (begins_array vs).skipSpace depth blank rest
      rw [hchars] at hskip
      have hitems : ∀ v ∈ vs, Reads (value k) v v := fun v hv =>
        ih v hv fun x hx => hfloats x (mem_floatsOfItems hv hx)
      rw [hchars, value_array hskip,
        arrayRest_items (depth + 1) blank' (List.forall₂_same.2 hitems)]
      rfl
  | @object k fs sorted values ih =>
      refine ⟨begins_object fs, fun depth ws rest blank ends => ?_⟩
      obtain ⟨ws', blank', hchars⟩ := prettyChars_object depth fs
      have hskip := (begins_object fs).skipSpace depth blank rest
      rw [hchars] at hskip
      have hfields : ∀ f ∈ fs, Reads (value k) f.2 f.2 := fun f hf =>
        ih f hf fun x hx => hfloats x (mem_floatsOfFields hf hx)
      rw [hchars, value_object hskip, objectRest_tableField blank' sorted hfields]
      rfl

/-- Every table that fits is read back. -/
theorem table_reads {k : Nat} {fs : Fields} (fits : Fits k (.object fs))
    (hfloats : ∀ x ∈ (Json.object fs).floats, x.ReadsBack) : Reads (table k) (.object fs) fs where
  begins := begins_object fs
  reads depth ws rest blank ends := by
    cases fits with
    | @object k _ sorted values =>
        obtain ⟨ws', blank', hchars⟩ := prettyChars_object depth fs
        have hfields : ∀ f ∈ fs, Reads (value k) f.2 f.2 := fun f hf =>
          value_reads (values f hf) fun x hx => hfloats x (mem_floatsOfFields hf hx)
        rw [table, (begins_object fs).skipSpace depth blank, hchars]
        exact objectRest_tableField blank' sorted hfields rest

/-! ## What is read fits -/

/-- Whatever a reader reads has a property. -/
def Ensures {α : Type} (read : Reader α) (P : α → Prop) : Prop :=
  ∀ {cs : List Char} {a : α} {rest : List Char}, read cs = .ok (a, rest) → P a

/-- Items have the property that each of them has. By induction on the bound. -/
theorem items_ensures {α : Type} {item : Reader α} {P : α → Prop} (h : Ensures item P)
    (bound : List Char) (first : Bool) : Ensures (items item bound first) fun as => ∀ a ∈ as, P a := by
  induction bound generalizing first with
  | nil =>
      intro cs as rest heq
      cases heq
  | cons b bound ih =>
      intro cs as rest heq
      rw [items] at heq
      split at heq
      · cases heq
      · obtain ⟨rfl, -⟩ := Prod.mk.inj (Except.ok.inj heq)
        exact fun _ hmem => absurd hmem List.not_mem_nil
      · split at heq
        · cases heq
        · next a rest' hitem =>
          split at heq
          · cases heq
          · next as' rest'' hmore =>
            obtain ⟨rfl, -⟩ := Prod.mk.inj (Except.ok.inj heq)
            intro a' hmem
            rcases List.mem_cons.1 hmem with rfl | hmem
            · exact h hitem
            · exact ih false hmore a' hmem

/-- The items of an array have it. -/
theorem arrayRest_ensures {α : Type} {item : Reader α} {P : α → Prop} (h : Ensures item P) :
    Ensures (arrayRest item) fun as => ∀ a ∈ as, P a := by
  intro cs as rest heq
  rw [arrayRest] at heq
  split at heq
  · cases heq
  · next as' rest' hitems =>
    split at heq
    · cases heq
    · obtain ⟨rfl, -⟩ := Prod.mk.inj (Except.ok.inj heq)
      exact items_ensures h cs true hitems

theorem list_ensures {α : Type} {item : Nat → Reader α} {k : Nat} {P : α → Prop}
    (h : Ensures (item k) P) : Ensures (list item (k + 1)) fun as => ∀ a ∈ as, P a := by
  intro cs as rest heq
  rw [list] at heq
  split at heq
  · exact nomatch heq
  · split at heq
    · exact arrayRest_ensures h heq
    · exact nomatch heq

/-- What the fields keep, the object keeps. -/
theorem fields_ensures {σ : Type} {key : Reader String} {field : σ → String → Reader σ}
    {P : σ → Prop} (h : ∀ s name, P s → Ensures (field s name) P) (bound : List Char)
    (first : Bool) {s : σ} (hs : P s) : Ensures (fields key field bound first s) P := by
  induction bound generalizing first s with
  | nil =>
      intro cs s' rest heq
      cases heq
  | cons b bound ih =>
      intro cs s' rest heq
      rw [fields] at heq
      split at heq
      · cases heq
      · obtain ⟨rfl, -⟩ := Prod.mk.inj (Except.ok.inj heq)
        exact hs
      · split at heq
        · cases heq
        · split at heq
          · cases heq
          · next hfield => exact ih false (h _ _ hs hfield) heq

/-- A value has it behind its colon. -/
theorem afterColon_ensures {α : Type} {read : Reader α} {P : α → Prop} (h : Ensures read P) :
    Ensures (afterColon read) P := by
  intro cs a rest heq
  rw [afterColon] at heq
  split at heq
  · cases heq
  · exact h heq

/-- **The fields of a table fit**, one level of brackets up. -/
theorem objectRest_tableField_ensures {k : Nat} (h : Ensures (value k) (Fits k)) :
    Ensures (objectRest stringRest (tableField k) []) fun fs => Fits (k + 1) (.object fs) := by
  have hfield : ∀ (fs : Fields) (name : String), (Sorted fs ∧ ∀ f ∈ fs, Fits k f.2) →
      Ensures (tableField k fs name) fun fs => Sorted fs ∧ ∀ f ∈ fs, Fits k f.2 := by
    intro fs name ⟨sorted, values⟩ cs fs' rest heq
    obtain ⟨⟨v, rest'⟩, hvalue, hinsert⟩ := exists_of_map_ok heq
    obtain ⟨rfl, -⟩ := Prod.mk.inj hinsert
    refine ⟨sorted_insert sorted name v, fun f hf => ?_⟩
    rcases mem_insert hf with rfl | hmem
    · exact afterColon_ensures h hvalue
    · exact values f hmem
  intro cs fs rest heq
  rw [objectRest] at heq
  split at heq
  · exact nomatch heq
  · next fs' rest' hfields =>
    split at heq
    · exact nomatch heq
    · obtain ⟨rfl, -⟩ := Prod.mk.inj (Except.ok.inj heq)
      obtain ⟨sorted, values⟩ := fields_ensures hfield cs true
        ⟨List.Pairwise.nil, fun _ hmem => absurd hmem List.not_mem_nil⟩ hfields
      exact .object sorted values

/-- What a value that is read can be. -/
inductive ReadAs (k : Nat) (cs : List Char) : Json → Prop where
  | null (r : List Char) (start : skipSpace cs = 'n' :: r) : ReadAs k cs .null
  | bool (b : Bool) : ReadAs k cs (.bool b)
  | int (n : Int) (inRange : (Number.int n).InRange) : ReadAs k cs (.int n)
  | float (x : Double) : ReadAs k cs (.float x)
  | string (s : String) : ReadAs k cs (.string s)
  | array {k' : Nat} {r rest : List Char} {vs : List Json} (level : k = k' + 1)
      (items : arrayRest (value k') r = .ok (vs, rest)) : ReadAs k cs (.array vs)
  | object {k' : Nat} {r rest : List Char} {fs : Fields} (level : k = k' + 1)
      (fields : objectRest stringRest (tableField k') [] r = .ok (fs, rest)) :
      ReadAs k cs (.object fs)

/-- **A value is read by the character that it begins with.** -/
theorem value_readAs {k : Nat} {cs rest : List Char} {v : Json}
    (h : value k cs = .ok (v, rest)) : ReadAs k cs v := by
  rw [value.eq_def] at h
  dsimp only at h
  split at h
  · exact nomatch h
  · next c r hskip =>
    split at h
    · next hn =>
      obtain ⟨_, -, heq⟩ := exists_of_map_ok h
      exact (Prod.mk.inj heq).1 ▸ .null r (eq_of_beq hn ▸ hskip)
    split at h
    · obtain ⟨_, -, heq⟩ := exists_of_map_ok h
      exact (Prod.mk.inj heq).1 ▸ .bool true
    split at h
    · obtain ⟨_, -, heq⟩ := exists_of_map_ok h
      exact (Prod.mk.inj heq).1 ▸ .bool false
    split at h
    · split at h
      · exact nomatch h
      · next n _ hnumber =>
        obtain ⟨rfl, -⟩ := Prod.mk.inj (Except.ok.inj h)
        refine .int n ?_
        split at hnumber
        · exact number_inRange hnumber
        · exact number_inRange hnumber
      · obtain ⟨rfl, -⟩ := Prod.mk.inj (Except.ok.inj h)
        exact .float _
    split at h
    · obtain ⟨⟨s, _⟩, -, heq⟩ := exists_of_map_ok h
      exact (Prod.mk.inj heq).1 ▸ .string s
    split at h
    · split at h
      · exact nomatch h
      · obtain ⟨⟨vs, _⟩, hitems, heq⟩ := exists_of_map_ok h
        exact (Prod.mk.inj heq).1 ▸ .array rfl hitems
    split at h
    · split at h
      · exact nomatch h
      · obtain ⟨⟨fs, _⟩, hfields, heq⟩ := exists_of_map_ok h
        exact (Prod.mk.inj heq).1 ▸ .object rfl hfields
    · exact nomatch h

/-- **What is read fits the levels that were left.** -/
theorem value_ensures (k : Nat) : Ensures (value k) (Fits k) := by
  induction k using Nat.strongRecOn with
  | ind k ih =>
      intro cs v rest h
      cases value_readAs h with
      | null r start => exact .null k
      | bool b => exact .bool k b
      | int n inRange => exact .int k n inRange
      | float x => exact .float k x
      | string s => exact .string k s
      | array level items =>
          subst level
          exact .array (arrayRest_ensures (ih _ (Nat.lt_succ_self _)) items)
      | object level fields =>
          subst level
          exact objectRest_tableField_ensures (ih _ (Nat.lt_succ_self _)) fields

theorem table_ensures (k : Nat) : Ensures (table k) fun fs => Fits k (.object fs) := by
  intro cs fs rest h
  rw [table] at h
  split at h
  · cases h
  · split at h
    · cases k with
      | zero => cases h
      | succ k => exact objectRest_tableField_ensures (value_ensures k) h
    · cases h

/-- A value that may be missing has the property if it is there. -/
theorem option_ensures {α : Type} {read : Reader α} {P : α → Prop} (h : Ensures read P) :
    Ensures (option read) fun a? => ∀ a, a? = some a → P a := by
  intro cs a? rest heq
  rw [option] at heq
  split at heq
  · obtain ⟨_, -, heq⟩ := exists_of_map_ok heq
    obtain ⟨rfl, -⟩ := Prod.mk.inj heq
    intro a ha
    cases ha
  · obtain ⟨⟨a, _⟩, hread, heq⟩ := exists_of_map_ok heq
    obtain ⟨rfl, -⟩ := Prod.mk.inj heq
    exact fun a' ha => Option.some.inj ha ▸ h hread

/-- To skip white space twice is to skip it once. -/
theorem skipSpace_skipSpace (cs : List Char) : skipSpace (skipSpace cs) = skipSpace cs := by
  induction cs with
  | nil => rfl
  | cons c cs ih =>
      cases hspace : isSpace c with
      | true =>
          have hskip : skipSpace (c :: cs) = skipSpace cs := List.dropWhile_cons_of_pos hspace
          rw [hskip, ih]
      | false => rw [skipSpace_cons hspace, skipSpace_cons hspace]

/-- A value that is given is not null. -/
theorem option_value_ne_null (k : Nat) : Ensures (option (value k)) fun v? => v? ≠ some .null := by
  intro cs v? rest heq
  rw [option] at heq
  split at heq
  · obtain ⟨_, -, heq⟩ := exists_of_map_ok heq
    obtain ⟨rfl, -⟩ := Prod.mk.inj heq
    exact (Option.some_ne_none _).symm
  · next hnull =>
    obtain ⟨⟨v, _⟩, hvalue, heq⟩ := exists_of_map_ok heq
    obtain ⟨rfl, -⟩ := Prod.mk.inj heq
    intro hv
    obtain rfl := Option.some.inj hv
    -- only text that begins with an `n` is read as null
    cases value_readAs hvalue with
    | null r start =>
        rw [skipSpace_skipSpace] at start
        exact hnull r start

end Reader

end Json

end Blueprints
