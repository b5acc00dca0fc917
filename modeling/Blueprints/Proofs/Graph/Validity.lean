import Mathlib.Data.List.Nodup
import Blueprints.Document

/-! # Documents with distinct ids are valid

    The checks of a document look for an id that stands in a list once more.
    They find none where the ids are distinct.  The ids of a catalog that was
    made from a list are distinct, because a definition takes the place of the
    one with the same id. -/

namespace Blueprints

/-! ## Repeated ids -/

/-- What is distinct and has not been seen has not been seen after the first
    of it either. -/
theorem unseen_of_nodup_cons {id : String} {rest seen : List String} (h : (id :: rest).Nodup)
    (hseen : ∀ id' ∈ id :: rest, id' ∉ seen) : ∀ id' ∈ rest, id' ∉ id :: seen := by
  intro id' hid' hmem
  rcases List.mem_cons.1 hmem with rfl | hold
  · exact (List.nodup_cons.1 h).1 hid'
  · exact hseen id' (List.mem_cons_of_mem _ hid') hold

/-- Where ids are distinct and new, none is found to be repeated. By induction on
    the ids. -/
theorem addRepeated_of_nodup {found seen ids : List String} (hids : ids.Nodup)
    (hseen : ∀ id ∈ ids, id ∉ seen) : addRepeated found seen ids = found := by
  induction ids generalizing seen with
  | nil => rfl
  | cons id rest ih =>
      have hout : ¬(seen.contains id && !found.contains id) = true := by
        simp [hseen id (List.mem_cons_self ..)]
      rw [addRepeated, if_neg hout]
      exact ih hids.of_cons (unseen_of_nodup_cons hids hseen)

theorem repeated_of_nodup {ids : List String} (h : ids.Nodup) : repeated ids = [] :=
  addRepeated_of_nodup h fun _ _ => List.not_mem_nil

/-- The search for the first repeated id finds none either. -/
theorem firstRepeated?_of_nodup {seen ids : List String} (hids : ids.Nodup)
    (hseen : ∀ id ∈ ids, id ∉ seen) : Document.firstRepeated? seen ids = none := by
  induction ids generalizing seen with
  | nil => rfl
  | cons id rest ih =>
      have hout : ¬seen.contains id = true := by simp [hseen id (List.mem_cons_self ..)]
      rw [Document.firstRepeated?, if_neg hout]
      exact ih hids.of_cons (unseen_of_nodup_cons hids hseen)

/-! ## Definitions -/

/-- No two inputs and no two outputs have one id. -/
structure Definition.Distinct (d : Definition) : Prop where
  inputs : (d.inputs.map Param.id).Nodup
  outputs : (d.outputs.map Param.id).Nodup

theorem Definition.Distinct.repeatedParams {d : Definition} (h : d.Distinct) :
    d.repeatedParams = [] := by
  rw [Definition.repeatedParams, repeated_of_nodup h.inputs]
  exact repeated_of_nodup h.outputs

/-- Distinct definitions with distinct ids have no flaw. By induction on the
    definitions. -/
theorem definitionFlaw?_of_nodup {seen : List String} {ds : List Definition}
    (hids : (ds.map Definition.id).Nodup) (hseen : ∀ id ∈ ds.map Definition.id, id ∉ seen)
    (hparams : ∀ d ∈ ds, d.Distinct) : Document.definitionFlaw? seen ds = none := by
  induction ds generalizing seen with
  | nil => rfl
  | cons d rest ih =>
      have hout : ¬seen.contains d.id = true := by simp [hseen d.id (List.mem_cons_self ..)]
      rw [Document.definitionFlaw?, if_neg hout,
        (hparams d (List.mem_cons_self ..)).repeatedParams]
      exact ih hids.of_cons (unseen_of_nodup_cons hids hseen)
        fun d' hd' => hparams d' (List.mem_cons_of_mem _ hd')

/-! ## Catalogs -/

/-- The last place with a property has it, and there is none if no member
    has. -/
theorem lastIndex?_spec {α : Type} (p : α → Bool) (as : List α) :
    match lastIndex? p as with
    | some i => ∃ a, as[i]? = some a ∧ p a = true
    | none => ∀ a ∈ as, p a = false := by
  induction as with
  | nil => exact fun _ h => absurd h List.not_mem_nil
  | cons a rest ih =>
      rw [lastIndex?]
      cases hlast : lastIndex? p rest with
      | some i =>
          rw [hlast] at ih
          simpa using ih
      | none =>
          rw [hlast] at ih
          dsimp only at ih ⊢
          cases hp : p a with
          | true => exact ⟨a, rfl, hp⟩
          | false =>
              intro a' ha'
              rcases List.mem_cons.1 ha' with rfl | hrest
              · exact hp
              · exact ih a' hrest

namespace Catalog

/-- **To insert a definition keeps ids distinct**: it takes the place of the one
    with its id. -/
theorem ids_insert (c : Catalog) (d : Definition) (h : (c.definitions.map Definition.id).Nodup) :
    ((c.insert d).definitions.map Definition.id).Nodup := by
  have hspec := lastIndex?_spec (fun d' : Definition => d'.id == d.id) c.definitions
  rw [insert, position?]
  cases hlast : lastIndex? (fun d' : Definition => d'.id == d.id) c.definitions with
  | some i =>
      rw [hlast] at hspec
      obtain ⟨d', hd', hid⟩ := hspec
      -- the place keeps its id
      have hsame : (c.definitions.set i d).map Definition.id = c.definitions.map Definition.id := by
        rw [List.map_set, ← eq_of_beq hid]
        refine List.ext_getElem? fun j => ?_
        rw [List.getElem?_set]
        split
        · next heq =>
          subst heq
          obtain ⟨hlt, heq⟩ := List.getElem?_eq_some_iff.1 hd'
          rw [if_pos (by simpa using hlt), List.getElem?_map, hd']
          rfl
        · rfl
      show ((c.definitions.set i d).map Definition.id).Nodup
      rw [hsame]
      exact h
  | none =>
      rw [hlast] at hspec
      show ((c.definitions ++ [d]).map Definition.id).Nodup
      rw [List.map_append]
      refine List.nodup_append.2 ⟨h, List.nodup_singleton _, fun id hid id' hid' heq => ?_⟩
      obtain ⟨d', hd', rfl⟩ := List.mem_map.1 hid
      obtain rfl := List.mem_singleton.1 hid'
      exact beq_eq_false_iff_ne.1 (hspec d' hd') heq

/-- What is inserted is all that is new. -/
theorem mem_insert {c : Catalog} {d d' : Definition} (h : d' ∈ (c.insert d).definitions) :
    d' ∈ c.definitions ∨ d' = d := by
  rw [insert] at h
  split at h
  · exact List.mem_or_eq_of_mem_set h
  · simpa using h

/-- **The ids of a catalog that was made from a list are distinct.** -/
theorem ids_ofList (ds : List Definition) : ((ofList ds).definitions.map Definition.id).Nodup := by
  suffices h : ∀ c : Catalog, (c.definitions.map Definition.id).Nodup →
      ((ds.foldl insert c).definitions.map Definition.id).Nodup from h empty List.nodup_nil
  induction ds with
  | nil => exact fun c hc => hc
  | cons d rest ih => exact fun c hc => ih (c.insert d) (ids_insert c d hc)

/-- A catalog holds what it was made from. -/
theorem mem_of_mem_ofList {ds : List Definition} {d : Definition}
    (h : d ∈ (ofList ds).definitions) : d ∈ ds := by
  suffices hfold : ∀ c : Catalog, d ∈ (ds.foldl insert c).definitions →
      d ∈ c.definitions ∨ d ∈ ds from (hfold empty h).resolve_left List.not_mem_nil
  clear h
  induction ds with
  | nil => exact fun c hc => Or.inl hc
  | cons d' rest ih =>
      intro c hc
      rcases ih (c.insert d') hc with hold | hrest
      · rcases mem_insert hold with hold | rfl
        · exact Or.inl hold
        · exact Or.inr (List.mem_cons_self ..)
      · exact Or.inr (List.mem_cons_of_mem _ hrest)

end Catalog

/-! ## Documents -/

/-- No two nodes and no two connections have one id. -/
structure Blueprint.Distinct (b : Blueprint) : Prop where
  nodes : (b.nodes.map Node.id).Nodup
  connections : (b.connections.map Connection.id).Nodup

/-- **A document of distinct ids is valid.** -/
theorem validate_withCatalog {b : Blueprint} (hb : b.Distinct) {ds : List Definition}
    (hds : ∀ d ∈ ds, d.Distinct) (now : Time.Timestamp) :
    (Document.withCatalog b (.ofList ds) now).validate = .ok () := by
  have hversion : ¬(Document.majorVersion Document.currentVersion != "1") = true := by decide
  have hflaw : (Document.withCatalog b (.ofList ds) now).flaw? = none := by
    rw [Document.flaw?, Document.withCatalog, Document.new, if_neg hversion]
    dsimp only
    rw [Blueprint.repeatedNodes, repeated_of_nodup hb.nodes]
    dsimp only
    rw [firstRepeated?_of_nodup hb.connections fun _ _ => List.not_mem_nil]
    exact definitionFlaw?_of_nodup (Catalog.ids_ofList ds) (fun _ _ => List.not_mem_nil)
      fun d hd => hds d (Catalog.mem_of_mem_ofList hd)
  rw [Document.validate, hflaw]

end Blueprints
