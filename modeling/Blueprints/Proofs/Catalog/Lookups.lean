import Mathlib.Data.List.InsertIdx
import Mathlib.Data.List.Nodup
import Mathlib.Data.List.Perm.Basic
import Mathlib.Data.List.Induction
import Mathlib.Logic.Function.Basic
import Blueprints.Proofs.Catalog.Merging

/-! # Looking up the definitions of a catalog

    A catalog changes by operations: definitions are inserted, edited, removed
    and merged in.  The place of an id can be looked up in a table that the
    operations keep up to date (`Indexed`); after every session the table holds
    the places at which the catalog itself finds its ids (`Indexed.InStep`), so
    that no look-up leaves the list.

    One operation can break the rule that no two definitions have one id: an
    edit that gives a definition the id of another one (`Operation.Clashes`).
    All other operations keep it (`Catalog.distinct_apply_iff`). -/

namespace Blueprints

/-! ## The last place with a property -/

/-- The last place is the new one, if it has the property. -/
theorem lastIndex?_append_singleton {α : Type} (p : α → Bool) (as : List α) (a : α) :
    lastIndex? p (as ++ [a]) = if p a then some as.length else lastIndex? p as := by
  induction as with
  | nil => rfl
  | cons b rest ih =>
      rw [List.cons_append, lastIndex?, ih]
      cases hp : p a with
      | true => rfl
      | false => rfl

theorem lastIndex?_map {α β : Type} (f : α → β) (p : β → Bool) (as : List α) :
    lastIndex? p (as.map f) = lastIndex? (fun a => p (f a)) as := by
  induction as with
  | nil => rfl
  | cons a rest ih => rw [List.map_cons, lastIndex?, lastIndex?, ih]

namespace Catalog

/-- The ids of the definitions, in their order. -/
def ids (c : Catalog) : List String := c.definitions.map Definition.id

/-- No two definitions have one id. -/
def Distinct (c : Catalog) : Prop := c.ids.Nodup

/-- Places depend on the ids only. -/
theorem position?_eq_ids (c : Catalog) (id : String) :
    c.position? id = lastIndex? (· == id) c.ids :=
  (lastIndex?_map Definition.id (· == id) c.definitions).symm

/-- **At the place of an id stands the definition that is found.** -/
theorem exists_at_position {c : Catalog} {id : String} {i : Nat} (h : c.position? id = some i) :
    ∃ d, c.definitions[i]? = some d ∧ d.id = id ∧ c.find? id = some d := by
  have hspec := lastIndex?_spec (fun d : Definition => d.id == id) c.definitions
  have hlast : lastIndex? (fun d : Definition => d.id == id) c.definitions = some i := h
  rw [hlast] at hspec
  obtain ⟨d, hd, hid⟩ := hspec
  refine ⟨d, hd, eq_of_beq hid, ?_⟩
  rw [find?, h]
  exact hd

/-- An id has no place exactly if no definition has it. -/
theorem position?_eq_none_iff {c : Catalog} {id : String} :
    c.position? id = none ↔ ∀ d ∈ c.definitions, d.id ≠ id := by
  have hspec := lastIndex?_spec (fun d : Definition => d.id == id) c.definitions
  constructor
  · intro h d hd
    have hlast : lastIndex? (fun d : Definition => d.id == id) c.definitions = none := h
    rw [hlast] at hspec
    exact beq_eq_false_iff_ne.1 (hspec d hd)
  · intro h
    cases hplace : c.position? id with
    | none => rfl
    | some i =>
        obtain ⟨d, hd, hid, -⟩ := exists_at_position hplace
        exact absurd hid (h d (List.mem_of_getElem? hd))

/-- An id stands for nothing exactly if no definition has it. -/
theorem find?_eq_none_iff {c : Catalog} {id : String} :
    c.find? id = none ↔ ∀ d ∈ c.definitions, d.id ≠ id := by
  rw [← position?_eq_none_iff]
  cases hplace : c.position? id with
  | none => simp [find?, hplace]
  | some i =>
      obtain ⟨d, -, -, hfind⟩ := exists_at_position hplace
      simp [hfind]

/-- What an id stands for is found at its place and has it. -/
theorem id_of_find? {c : Catalog} {id : String} {d : Definition} (h : c.find? id = some d) :
    ∃ i, c.position? id = some i ∧ c.definitions[i]? = some d ∧ d.id = id := by
  cases hplace : c.position? id with
  | none =>
      rw [find?, hplace] at h
      cases h
  | some i =>
      obtain ⟨d', hd', hid, hfind⟩ := exists_at_position hplace
      obtain rfl := Option.some.inj (hfind.symm.trans h)
      exact ⟨i, rfl, hd', hid⟩

theorem contains_iff_mem_ids {c : Catalog} {id : String} : c.contains id = true ↔ id ∈ c.ids := by
  rw [contains_eq_isSome, Option.isSome_iff_ne_none, ne_eq, find?_eq_none_iff, ids, List.mem_map]
  push Not
  rfl

/-- **In a catalog of distinct ids an id stands for the one definition that has
    it.** -/
theorem Distinct.find?_eq_some_iff {c : Catalog} (h : c.Distinct) {id : String} {d : Definition} :
    c.find? id = some d ↔ d ∈ c.definitions ∧ d.id = id := by
  constructor
  · intro hfind
    obtain ⟨i, -, hd, hid⟩ := id_of_find? hfind
    exact ⟨List.mem_of_getElem? hd, hid⟩
  · rintro ⟨hd, rfl⟩
    cases hfind : c.find? d.id with
    | none => exact absurd rfl (find?_eq_none_iff.1 hfind d hd)
    | some d' =>
        obtain ⟨i, -, hd', hid⟩ := id_of_find? hfind
        exact congrArg some (List.inj_on_of_nodup_map h (List.mem_of_getElem? hd') hd hid)

/-! ## Operations -/

/-- An operation on a catalog. -/
inductive Operation where
  | insert (d : Definition)
  | update (id : String) (edit : Definition → Definition)
  | remove (id : String)
  | merge (ds : List Definition)

/-- The catalog after an operation; an edit of an id that stands for nothing
    fails and changes nothing. -/
def Operation.apply (c : Catalog) : Operation → Catalog
  | .insert d => c.insert d
  | .update id edit => (c.update? id edit).getD c
  | .remove id => (c.remove id).2
  | .merge ds => (c.merge ds).2

/-- The catalog after a session. -/
def reached (ops : List Operation) : Catalog := ops.foldl Operation.apply empty

/-- The operation gives a definition the id of another one. -/
def Operation.Clashes (c : Catalog) : Operation → Prop
  | .update id edit => ∃ d, c.find? id = some d ∧ (edit d).id ≠ id ∧ c.contains (edit d).id = true
  | _ => False

/-- An edit puts the edited definition into its place. -/
theorem update?_of_find? {c : Catalog} {id : String} {d : Definition}
    (edit : Definition → Definition) (h : c.find? id = some d) :
    ∃ i, c.position? id = some i ∧ c.definitions[i]? = some d
      ∧ c.update? id edit = some ⟨c.definitions.set i (edit d)⟩ := by
  obtain ⟨i, hplace, hd, -⟩ := id_of_find? h
  refine ⟨i, hplace, hd, ?_⟩
  rw [update?, hplace]
  dsimp only
  rw [List.modify_eq_set_getElem?, hd]
  rfl

/-- A new id in one place leaves distinct ids iff it is the old one or none of
    the others. -/
theorem nodup_set_iff {ids : List String} (h : ids.Nodup) {i : Nat} {old : String}
    (hold : ids[i]? = some old) (new : String) :
    (ids.set i new).Nodup ↔ ¬(new ≠ old ∧ new ∈ ids) := by
  obtain ⟨hlt, rfl⟩ := List.getElem?_eq_some_iff.1 hold
  obtain ⟨before, after, hids, -, hset⟩ := @List.exists_of_set _ i new ids hlt
  rw [hids, List.nodup_middle, List.nodup_cons] at h
  rw [hset, List.nodup_middle, List.nodup_cons]
  constructor
  · rintro ⟨hnew, -⟩ ⟨hne, hmem⟩
    rw [hids, List.mem_append, List.mem_cons] at hmem
    rw [List.mem_append] at hnew
    tauto
  · intro hclash
    refine ⟨fun hnew => hclash ⟨?_, ?_⟩, h.2⟩
    · rintro rfl
      exact h.1 hnew
    · rw [hids, List.mem_append, List.mem_cons]
      rcases List.mem_append.1 hnew with hnew | hnew
      · exact Or.inl hnew
      · exact Or.inr (Or.inr hnew)

/-- Merging adds the definitions one by one. -/
theorem snd_merge (c : Catalog) (ds : List Definition) :
    (c.merge ds).2 = ds.foldl (fun c d => if c.contains d.id then c else c.insert d) c := by
  suffices hfold : ∀ start : Nat × Catalog,
      (ds.foldl (fun counted d => if counted.2.contains d.id then counted
        else (counted.1 + 1, counted.2.insert d)) start).2
        = ds.foldl (fun c d => if c.contains d.id then c else c.insert d) start.2 from hfold (0, c)
  induction ds with
  | nil => exact fun start => rfl
  | cons d rest ih =>
      intro start
      rw [List.foldl_cons, List.foldl_cons, ih, apply_ite Prod.snd]

/-- **Merging keeps ids distinct.** By induction on the definitions: a known id is
    passed over. -/
theorem distinct_merge {c : Catalog} (h : c.Distinct) (ds : List Definition) :
    (c.merge ds).2.Distinct := by
  rw [snd_merge]
  induction ds generalizing c with
  | nil => exact h
  | cons d rest ih =>
      rw [List.foldl_cons]
      split
      · exact ih h
      · exact ih (ids_insert c d h)

/-- **Of the operations on a catalog of distinct ids only one that clashes
    leaves two definitions with one id.** -/
theorem distinct_apply_iff {c : Catalog} (h : c.Distinct) (op : Operation) :
    (op.apply c).Distinct ↔ ¬op.Clashes c := by
  cases op with
  | insert d => exact iff_of_true (ids_insert c d h) not_false
  | merge ds => exact iff_of_true (distinct_merge h ds) not_false
  | remove id =>
      refine iff_of_true ?_ not_false
      rw [Operation.apply, remove]
      cases c.position? id with
      | none => exact h
      | some i => exact ((List.eraseIdx_sublist c.definitions i).map _).nodup h
  | update id edit =>
      cases hfind : c.find? id with
      | none =>
          -- the edit fails
          have hplace : c.position? id = none := by
            rw [position?_eq_none_iff, ← find?_eq_none_iff]
            exact hfind
          refine iff_of_true ?_ ?_
          · rw [Operation.apply, update?, hplace]
            exact h
          · rintro ⟨d, hd, -⟩
            cases hfind.symm.trans hd
      | some d =>
          obtain ⟨i, hplace, hd, hupdate⟩ := update?_of_find? edit hfind
          obtain ⟨-, -, -, rfl⟩ := id_of_find? hfind
          have hid : c.ids[i]? = some d.id := by rw [ids, List.getElem?_map, hd]; rfl
          rw [Operation.apply, hupdate, Option.getD_some, Distinct, ids, List.map_set]
          refine (nodup_set_iff h hid (edit d).id).trans (not_congr ?_)
          rw [← contains_iff_mem_ids]
          constructor
          · exact fun hclash => ⟨d, hfind, hclash⟩
          · rintro ⟨d', hd', hclash⟩
            obtain rfl := Option.some.inj (hfind.symm.trans hd')
            exact hclash

/-- A session that goes on by one operation. -/
theorem reached_append_singleton (ops : List Operation) (op : Operation) :
    reached (ops ++ [op]) = op.apply (reached ops) := by
  rw [reached, List.foldl_append]
  rfl

/-- **The ids are distinct at every stage of a session iff none of its
    operations clashes.** -/
theorem distinct_throughout_iff (ops : List Operation) :
    (∀ before, before <+: ops → (reached before).Distinct)
      ↔ ∀ before op, before ++ [op] <+: ops → ¬op.Clashes (reached before) := by
  constructor
  · intro h before op hstage
    have hbefore := h before ((List.prefix_append before [op]).trans hstage)
    have hafter := h (before ++ [op]) hstage
    rw [reached_append_singleton] at hafter
    exact (distinct_apply_iff hbefore op).1 hafter
  · intro h before hstage
    induction before using List.reverseRecOn with
    | nil => exact List.nodup_nil
    | append_singleton before op ih =>
        have hbefore := ih ((List.prefix_append before [op]).trans hstage)
        rw [reached_append_singleton]
        exact (distinct_apply_iff hbefore op).2 (h before op hstage)

/-- **What is removed is what was found, and the id is found no more iff no
    other definition has it.** -/
theorem remove_spec (c : Catalog) (id : String) :
    (c.remove id).1 = c.find? id
      ∧ ((c.remove id).2.find? id = none ↔ c.ids.count id ≤ 1) := by
  have hnone : ∀ c : Catalog, c.find? id = none ↔ c.ids.count id = 0 := by
    intro c
    rw [find?_eq_none_iff, List.count_eq_zero, ids, List.mem_map]
    push Not
    rfl
  rw [hnone, remove, find?]
  cases hplace : c.position? id with
  | none =>
      have hcount : c.ids.count id = 0 := by rw [← hnone, find?, hplace]
      exact ⟨rfl, by simp [hcount]⟩
  | some i =>
      obtain ⟨d, hd, rfl, -⟩ := exists_at_position hplace
      refine ⟨rfl, ?_⟩
      have hid : c.ids[i]? = some d.id := by rw [ids, List.getElem?_map, hd]; rfl
      obtain ⟨hlt, hget⟩ := List.getElem?_eq_some_iff.1 hid
      -- one definition with the id is taken out
      have hcount := (List.getElem_cons_eraseIdx_perm hlt).count_eq d.id
      rw [hget, List.count_cons_self] at hcount
      show List.count d.id (List.map Definition.id (c.definitions.eraseIdx i)) = 0 ↔ _
      rw [← List.eraseIdx_map, ← ids]
      omega

/-! ## A table of places -/

/-- The places of ids. -/
abbrev Table := String → Option Nat

/-- The table of a list of definitions, made by going through them. -/
def tableOf (ds : List Definition) : Table :=
  ds.zipIdx.foldl (fun table (d, i) => Function.update table d.id (some i)) fun _ => none

/-- A list of definitions with a table of their places. -/
structure Indexed where
  definitions : List Definition := []
  table : Table := fun _ => none

namespace Indexed

/-- A known id keeps its place; a new one goes to the end. -/
def insert (t : Indexed) (d : Definition) : Indexed :=
  match t.table d.id with
  | some i => { t with definitions := t.definitions.set i d }
  | none => ⟨t.definitions ++ [d], Function.update t.table d.id (some t.definitions.length)⟩

/-- The table is made anew only if the edited definition has another id. -/
def update (t : Indexed) (id : String) (edit : Definition → Definition) : Indexed :=
  match t.table id with
  | some i =>
    let edited := t.definitions.modify i edit
    if edited[i]?.map Definition.id = some id then { t with definitions := edited }
    else ⟨edited, tableOf edited⟩
  | none => t

/-- What is behind the removed definition moves up, so the table is made
    anew. -/
def remove (t : Indexed) (id : String) : Indexed :=
  match t.table id with
  | some i => ⟨t.definitions.eraseIdx i, tableOf (t.definitions.eraseIdx i)⟩
  | none => t

def merge (t : Indexed) (ds : List Definition) : Indexed :=
  ds.foldl (fun t d => if (t.table d.id).isSome then t else t.insert d) t

def apply (t : Indexed) : Operation → Indexed
  | .insert d => t.insert d
  | .update id edit => t.update id edit
  | .remove id => t.remove id
  | .merge ds => t.merge ds

/-- The definitions and the table after a session. -/
def reached (ops : List Operation) : Indexed := ops.foldl apply {}

/-- The definitions are those of a catalog, and the table has the places at
    which it finds its ids. -/
structure InStep (t : Indexed) (c : Catalog) : Prop where
  definitions : t.definitions = c.definitions
  table : ∀ id, t.table id = c.position? id

end Indexed

theorem tableOf_append_singleton (ds : List Definition) (d : Definition) :
    tableOf (ds ++ [d]) = Function.update (tableOf ds) d.id (some ds.length) := by
  rw [tableOf, List.zipIdx_append, List.foldl_append, ← tableOf]
  simp

/-- A definition at the end is the place of its id. -/
theorem position?_append_singleton (ds : List Definition) (d : Definition) (id : String) :
    position? ⟨ds ++ [d]⟩ id = Function.update (position? ⟨ds⟩) d.id (some ds.length) id := by
  rw [position?, lastIndex?_append_singleton, Function.update_apply]
  simp only [beq_iff_eq, @eq_comm _ id d.id]
  rfl

/-- **The table of a list has the last place of each id.** -/
theorem tableOf_eq (ds : List Definition) : tableOf ds = position? ⟨ds⟩ := by
  induction ds using List.reverseRecOn with
  | nil => rfl
  | append_singleton ds d ih =>
      funext id
      rw [tableOf_append_singleton, position?_append_singleton, ih]

namespace Indexed

/-- **A table that is made from definitions is in step with them.** -/
theorem inStep_tableOf (ds : List Definition) : InStep ⟨ds, tableOf ds⟩ ⟨ds⟩ :=
  ⟨rfl, fun id => congrFun (tableOf_eq ds) id⟩

/-- A definition with the same id leaves the places. -/
theorem InStep.set {t : Indexed} {c : Catalog} (h : InStep t c) {i : Nat} {d old : Definition}
    (hold : c.definitions[i]? = some old) (hid : d.id = old.id) :
    InStep ⟨t.definitions.set i d, t.table⟩ ⟨c.definitions.set i d⟩ := by
  refine ⟨congrArg (List.set · i d) h.definitions, fun id => ?_⟩
  have hids : (Catalog.mk (c.definitions.set i d)).ids = c.ids := by
    have hget : c.ids[i]? = some old.id := by rw [ids, List.getElem?_map, hold]; rfl
    obtain ⟨hlt, hget⟩ := List.getElem?_eq_some_iff.1 hget
    rw [ids, List.map_set, ← ids, hid, ← hget, List.set_getElem_self]
  rw [h.table, position?_eq_ids, position?_eq_ids, hids]

/-- **To insert keeps the table in step**: a place stays, or the end becomes one. -/
theorem InStep.insert {t : Indexed} {c : Catalog} (h : InStep t c) (d : Definition) :
    InStep (t.insert d) (c.insert d) := by
  rw [Indexed.insert, Catalog.insert, h.table]
  cases hplace : c.position? d.id with
  | some i =>
      obtain ⟨old, hold, hid, -⟩ := exists_at_position hplace
      exact h.set hold hid.symm
  | none =>
      refine ⟨congrArg (· ++ [d]) h.definitions, fun id => ?_⟩
      rw [position?_append_singleton, h.definitions]
      exact congrFun (congrArg (Function.update · _ _) (funext h.table)) id

/-- **To edit keeps the table in step**: it is made anew if the id has changed. -/
theorem InStep.update {t : Indexed} {c : Catalog} (h : InStep t c) (id : String)
    (edit : Definition → Definition) : InStep (t.update id edit) ((c.update? id edit).getD c) := by
  rw [Indexed.update, Catalog.update?, h.table]
  cases hplace : c.position? id with
  | none => exact h
  | some i =>
      obtain ⟨d, hd, rfl, -⟩ := exists_at_position hplace
      have hset : c.definitions.modify i edit = c.definitions.set i (edit d) := by
        rw [List.modify_eq_set_getElem?, hd]
        rfl
      have hedited : (c.definitions.set i (edit d))[i]? = some (edit d) :=
        List.getElem?_set_self (List.getElem?_eq_some_iff.1 hd).1
      dsimp only [Option.getD_some]
      rw [h.definitions, hset, hedited]
      split
      · next hid => exact h.definitions ▸ h.set hd (Option.some.inj hid)
      · exact inStep_tableOf _

/-- To remove makes the table anew. -/
theorem InStep.remove {t : Indexed} {c : Catalog} (h : InStep t c) (id : String) :
    InStep (t.remove id) (c.remove id).2 := by
  rw [Indexed.remove, Catalog.remove, h.table]
  cases c.position? id with
  | none => exact h
  | some i =>
      dsimp only
      rw [h.definitions]
      exact inStep_tableOf _

/-- To merge inserts what is new. By induction on the definitions. -/
theorem InStep.merge {t : Indexed} {c : Catalog} (h : InStep t c) (ds : List Definition) :
    InStep (t.merge ds) (c.merge ds).2 := by
  rw [snd_merge]
  induction ds generalizing t c with
  | nil => exact h
  | cons d rest ih =>
      rw [Indexed.merge, List.foldl_cons, List.foldl_cons, h.table, Catalog.contains]
      split
      · exact ih h
      · exact ih (h.insert d)

/-- **The table stays in step with the catalog throughout a session.** -/
theorem inStep_reached (ops : List Operation) : InStep (reached ops) (Catalog.reached ops) := by
  suffices hfold : ∀ t c, InStep t c → InStep (ops.foldl apply t) (ops.foldl Operation.apply c) from
    hfold {} empty ⟨rfl, fun _ => rfl⟩
  induction ops with
  | nil => exact fun t c h => h
  | cons op rest ih =>
      intro t c h
      refine ih _ _ ?_
      cases op with
      | insert d => exact h.insert d
      | update id edit => exact h.update id edit
      | remove id => exact h.remove id
      | merge ds => exact h.merge ds

end Indexed

/-! ## Every catalog that is reached -/

/-- **Look-ups in every catalog that a session reaches.**  The table that the
    operations keep has the places of the catalog's own search; at the place of
    an id stands a definition that has it, and an id that no definition has is
    not found.  No two definitions have one id at any stage iff no operation
    clashes, and then an id stands for the one definition that has it.  What is
    removed is found no more iff no second definition had the id. -/
theorem lookups_of_reached (ops : List Operation) :
    Indexed.InStep (.reached ops) (reached ops)
      ∧ (∀ id i, (reached ops).position? id = some i →
          ∃ d, (reached ops).definitions[i]? = some d ∧ d.id = id
            ∧ (reached ops).find? id = some d)
      ∧ (∀ id, (reached ops).contains id = ((reached ops).find? id).isSome
          ∧ ((reached ops).find? id = none ↔ ∀ d ∈ (reached ops).definitions, d.id ≠ id))
      ∧ ((∀ before, before <+: ops → (reached before).Distinct)
          ↔ ∀ before op, before ++ [op] <+: ops → ¬op.Clashes (reached before))
      ∧ ((reached ops).Distinct → ∀ id d,
          (reached ops).find? id = some d ↔ d ∈ (reached ops).definitions ∧ d.id = id)
      ∧ ∀ id, ((reached ops).remove id).1 = (reached ops).find? id
          ∧ (((reached ops).remove id).2.find? id = none ↔ (reached ops).ids.count id ≤ 1) :=
  ⟨Indexed.inStep_reached ops, fun _ _ hplace => exists_at_position hplace,
    fun _ => ⟨contains_eq_isSome _ _, find?_eq_none_iff⟩, distinct_throughout_iff ops,
    fun hdistinct _ _ => hdistinct.find?_eq_some_iff, remove_spec _⟩

namespace TakenId

def first : Definition := { id := "a", name := "A", category := "Custom" }

def second : Definition := { id := "b", name := "B", category := "Custom" }

/-- The first definition gets the id of the second one. -/
def rename : Operation := .update "a" fun d => { d with id := "b" }

/-- Before the id is given twice it is removed for good, and after that one
    definition is left under it. -/
theorem removed_and_still_found :
    ((reached [.insert first, .insert second]).remove "b").2.find? "b" = none
      ∧ ((reached [.insert first, .insert second, rename]).remove "b").2.find? "b" ≠ none := by
  obtain ⟨-, -, -, -, -, hbefore⟩ := lookups_of_reached [.insert first, .insert second]
  obtain ⟨-, -, -, -, -, hafter⟩ := lookups_of_reached [.insert first, .insert second, rename]
  exact ⟨(hbefore "b").2.2 (by decide), fun h => absurd ((hafter "b").2.1 h) (by decide)⟩

end TakenId

end Catalog

end Blueprints
