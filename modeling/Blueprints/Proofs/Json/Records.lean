import Blueprints.Json.Record
import Blueprints.Proofs.Json.Values

/-! # Records are read back

    A record is written as an object, field by field in the order of its
    layout; a field that may be left out can be (`Written`).  What is written so
    is read back (`reads_record`).  Whatever a record is read from, an object or
    an array, it has the properties that hold of the empty record and are
    kept by every field (`record_ensures`). -/

namespace Blueprints.Json.Reader

variable {α β : Type}

/-! ## Layouts -/

/-- No name stands for two fields. -/
def Lawful (layout : List (RecordField α)) : Prop :=
  (layout.flatMap fun f => f.name :: f.synonyms).Nodup

instance (layout : List (RecordField α)) : Decidable (Lawful layout) :=
  inferInstanceAs (Decidable (layout.flatMap fun f => f.name :: f.synonyms).Nodup)

theorem Lawful.of_cons {f : RecordField α} {layout : List (RecordField α)}
    (h : Lawful (f :: layout)) : Lawful layout :=
  (List.nodup_append.1 h).2.1

/-- A name of a field stands for no later one. -/
theorem Lawful.ne_of_mem {f g : RecordField α} {layout : List (RecordField α)}
    (h : Lawful (f :: layout)) (hg : g ∈ layout) : g.name ∉ f.name :: f.synonyms := by
  intro hmem
  exact (List.nodup_append.1 h).2.2 g.name hmem g.name
    (List.mem_flatMap.2 ⟨g, hg, List.mem_cons_self ..⟩) rfl

/-- The name of a field stands for it. -/
theorem findField?_of_mem {layout : List (RecordField α)} (lawful : Lawful layout)
    {f : RecordField α} (hf : f ∈ layout) : findField? layout f.name = some f := by
  induction layout with
  | nil => exact absurd hf List.not_mem_nil
  | cons g rest ih =>
      rw [findField?, List.find?_cons]
      rcases List.mem_cons.1 hf with rfl | hrest
      · rw [beq_self_eq_true, Bool.true_or]
      · have hnot : (g.name == f.name || g.synonyms.contains f.name) = false := by
          have hne := lawful.ne_of_mem hrest
          rw [List.mem_cons, not_or] at hne
          rw [Bool.or_eq_false_iff, beq_eq_false_iff_ne, ← Bool.not_eq_true,
            List.contains_iff_mem]
          exact ⟨Ne.symm hne.1, hne.2⟩
        rw [hnot]
        exact ih lawful.of_cons hrest

/-! ## Records that are written -/

/-- Fields of a layout, written one after the other or left out, lead from one
    record to another. -/
inductive Written (k : Nat) : List (RecordField α) → α → List (String × Json) → α → Prop where
  | nil (r : α) : Written k [] r [] r
  | field {f : RecordField α} {layout : List (RecordField α)} {r r' : α} {v : Json}
      {set : α → α} {js : List (String × Json)} (reads : Reads (f.read k) v set)
      (more : Written k layout (set r) js r') : Written k (f :: layout) r ((f.name, v) :: js) r'
  | skip {f : RecordField α} {layout : List (RecordField α)} {r r' : α}
      {js : List (String × Json)} (optional : f.required = false)
      (more : Written k layout r js r') : Written k (f :: layout) r js r'

/-- A field whose value is read back. -/
theorem Written.of {k : Nat} {name : String} {required : Bool} {value : Nat → Reader β}
    {set : β → α → α} {layout : List (RecordField α)} {r r' : α} {v : Json} {b : β}
    {js : List (String × Json)} (reads : Reads (value k) v b)
    (more : Written k layout (set b r) js r') :
    Written k (.of name required value set :: layout) r ((name, v) :: js) r' :=
  .field (reads.map set) more

/-- The fields of a layout are taken in their order.  Those to come have not
    been given, and those that are required are given in the end. -/
theorem Written.takes {k : Nat} {whole layout : List (RecordField α)} {r r' : α}
    {js : List (String × Json)} (h : Written k layout r js r') (lawful : Lawful layout)
    (hfind : ∀ f ∈ layout, findField? whole f.name = some f) {given : List String}
    (hnew : ∀ f ∈ layout, f.name ∉ given) :
    ∃ given', Takes (draftField whole k) ⟨r, given⟩ js ⟨r', given'⟩
      ∧ (∀ name ∈ given, name ∈ given')
      ∧ ∀ f ∈ layout, f.required = true → f.name ∈ given' := by
  induction h generalizing given with
  | nil r => exact ⟨given, .nil _, fun _ h => h, fun _ h => absurd h List.not_mem_nil⟩
  | @field f layout r r' v set js reads more ih =>
      have hnew' : ∀ g ∈ layout, g.name ∉ f.name :: given := by
        intro g hg hmem
        rcases List.mem_cons.1 hmem with heq | hold
        · exact lawful.ne_of_mem hg (heq ▸ List.mem_cons_self ..)
        · exact hnew g (List.mem_cons_of_mem _ hg) hold
      obtain ⟨given', htakes, hkeeps, hrequired⟩ := ih lawful.of_cons
        (fun g hg => hfind g (List.mem_cons_of_mem _ hg)) hnew'
      refine ⟨given', .cons (fun depth rest ends => ?_) htakes,
        fun name hname => hkeeps name (List.mem_cons_of_mem _ hname), fun g hg hg' => ?_⟩
      · have hfirst : ¬given.contains f.name = true := fun hmem =>
          hnew f (List.mem_cons_self ..) (List.contains_iff_mem.1 hmem)
        rw [draftField, hfind f (List.mem_cons_self ..)]
        dsimp only
        rw [if_neg hfirst, reads.afterColon depth ends]
        rfl
      · rcases List.mem_cons.1 hg with rfl | hrest
        · exact hkeeps _ (List.mem_cons_self ..)
        · exact hrequired g hrest hg'
  | @skip f layout r r' js optional more ih =>
      obtain ⟨given', htakes, hkeeps, hrequired⟩ := ih lawful.of_cons
        (fun g hg => hfind g (List.mem_cons_of_mem _ hg))
        fun g hg => hnew g (List.mem_cons_of_mem _ hg)
      refine ⟨given', htakes, hkeeps, fun g hg hg' => ?_⟩
      rcases List.mem_cons.1 hg with rfl | hrest
      · rw [optional] at hg'
        exact nomatch hg'
      · exact hrequired g hrest hg'

/-- Where all required fields are given, none is missing. -/
theorem missingField?_of_given {layout : List (RecordField α)} {given : List String}
    (h : ∀ f ∈ layout, f.required = true → f.name ∈ given) : missingField? layout given = none := by
  rw [missingField?, Option.map_eq_none_iff, List.find?_eq_none]
  intro f hf hmissing
  rw [Bool.and_eq_true, Bool.not_eq_true', ← Bool.not_eq_true, List.contains_iff_mem] at hmissing
  exact hmissing.2 (h f hf hmissing.1)

/-- **A record that is written is read back.** -/
theorem reads_record {k : Nat} {name : String} {layout : List (RecordField α)} {start a : α}
    {js : List (String × Json)} (lawful : Lawful layout) (h : Written k layout start js a) :
    Reads (record name layout start (k + 1)) (.object js) a where
  begins := begins_object js
  reads depth ws rest blank ends := by
    obtain ⟨ws', blank', hchars⟩ := prettyChars_object depth js
    obtain ⟨given, htakes, -, hrequired⟩ := h.takes lawful
      (fun f hf => findField?_of_mem lawful hf) fun _ _ => List.not_mem_nil
    have hbound : js.length < (prettyFields (depth + 1) js ++ (ws' ++ '\x7d' :: rest)).length :=
      length_lt_object (depth + 1) js rest
    have hfields := fields_takes (depth + 1) blank' htakes hbound rest
    rw [record, (begins_object js).skipSpace depth blank, hchars]
    show recordObject layout k start _ = _
    rw [recordObject, hfields]
    dsimp only
    rw [missingField?_of_given hrequired]
    dsimp only
    rw [closeObject_blank blank']
    rfl

/-! ## Records that are read -/

/-- What a field does to a record keeps a property of it. -/
structure RecordField.Keeps (P : α → Prop) (k : Nat) (f : RecordField α) : Prop where
  keeps : Ensures (f.read k) fun set => ∀ r, P r → P (set r)

/-- A field that sets what it reads keeps a property, if to set it does. -/
theorem RecordField.Keeps.of {P : α → Prop} {Q : β → Prop} {k : Nat} {name : String}
    {required : Bool} {value : Nat → Reader β} {set : β → α → α} (h : Ensures (value k) Q)
    (hset : ∀ b r, Q b → P r → P (set b r)) :
    (RecordField.of name required value set).Keeps P k := by
  refine ⟨fun heq r hr => ?_⟩
  obtain ⟨⟨b, _⟩, hvalue, heq⟩ := exists_of_map_ok heq
  obtain ⟨rfl, -⟩ := Prod.mk.inj heq
  exact hset b r (h hvalue) hr

/-- A field of which the property does not speak. -/
theorem RecordField.Keeps.other {P : α → Prop} {k : Nat} {name : String} {required : Bool}
    {value : Nat → Reader β} {set : β → α → α} (hset : ∀ b r, P r → P (set b r)) :
    (RecordField.of name required value set).Keeps P k :=
  .of (Q := fun _ => True) (fun _ => trivial) fun b r _ => hset b r

section Ensures

variable {P : α → Prop} {k : Nat} {layout : List (RecordField α)}
  (h : ∀ f ∈ layout, f.Keeps P k)

include h

/-- A field of a draft keeps the property, be it known or not. -/
theorem draftField_ensures (draft : Draft α) (name : String) (hdraft : P draft.record) :
    Ensures (draftField layout k draft name) fun draft => P draft.record := by
  intro cs draft' rest heq
  rw [draftField] at heq
  split at heq
  · obtain ⟨_, -, heq⟩ := exists_of_map_ok heq
    obtain ⟨rfl, -⟩ := Prod.mk.inj heq
    exact hdraft
  · next f hfind =>
    split at heq
    · exact nomatch heq
    · obtain ⟨⟨set, _⟩, hread, heq⟩ := exists_of_map_ok heq
      obtain ⟨rfl, -⟩ := Prod.mk.inj heq
      have hkeeps : f.Keeps P k := h f (List.mem_of_find?_eq_some hfind)
      exact afterColon_ensures hkeeps.keeps hread _ hdraft

/-- **A record that is read from an object** has the property. By induction on the
    fields. -/
theorem recordObject_ensures {start : α} (hstart : P start) :
    Ensures (recordObject layout k start) P := by
  intro cs a rest heq
  rw [recordObject] at heq
  split at heq
  · exact nomatch heq
  · next hfields =>
    split at heq
    · exact nomatch heq
    · obtain ⟨_, -, heq⟩ := exists_of_map_ok heq
      obtain ⟨rfl, -⟩ := Prod.mk.inj heq
      exact fields_ensures (P := fun draft => P draft.record) (draftField_ensures h) cs true
        hstart hfields

/-- **So has one that is read from an array**, item by item. -/
theorem recordItems_ensures {name : String} {total index : Nat} {r : α} (hr : P r) :
    Ensures (recordItems name total k layout index r) P := by
  induction layout generalizing index r with
  | nil =>
      intro cs a rest heq
      obtain ⟨rfl, -⟩ := Prod.mk.inj (Except.ok.inj heq)
      exact hr
  | cons f layout ih =>
      have hlater : ∀ g ∈ layout, g.Keeps P k := fun g hg => h g (List.mem_cons_of_mem f hg)
      intro cs a rest heq
      rw [recordItems] at heq
      split at heq
      · exact nomatch heq
      · split at heq
        · exact nomatch heq
        · exact ih hlater hr heq
      · split at heq
        · exact nomatch heq
        · next hread => exact ih hlater ((h f (List.mem_cons_self ..)).keeps hread r hr) heq

/-- **A record that is read has what its fields keep.** -/
theorem record_ensures {name : String} {start : α} (hstart : P start) :
    Ensures (record name layout start (k + 1)) P := by
  intro cs a rest heq
  rw [record] at heq
  split at heq
  · cases heq
  · split at heq
    · change recordArray name layout k start _ = _ at heq
      rw [recordArray] at heq
      split at heq
      · cases heq
      · next hitems =>
        obtain ⟨_, -, heq⟩ := exists_of_map_ok heq
        obtain ⟨rfl, -⟩ := Prod.mk.inj heq
        exact recordItems_ensures h hstart hitems
    · split at heq
      · exact recordObject_ensures h hstart heq
      · cases heq

end Ensures

end Blueprints.Json.Reader
