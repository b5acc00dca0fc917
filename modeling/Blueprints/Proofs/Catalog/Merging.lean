import Blueprints.Proofs.Graph.Validity

/-! # Merging definitions into a catalog

    An id stands for the last definition of the catalog that has it
    (`Catalog.find?_eq`).  Merging leaves what ids stand for, and an id that
    stood for nothing stands for the first of the new definitions that has it
    (`Catalog.find?_merge`). -/

namespace Blueprints

/-- The first definition in a list that has an id. -/
def Definition.first? (id : String) (ds : List Definition) : Option Definition :=
  ds.find? (·.id == id)

/-- The first definition of two lists is that of the first one, if it has any. -/
theorem Definition.first?_append (id : String) (ds ds' : List Definition) :
    first? id (ds ++ ds') = (first? id ds).or (first? id ds') :=
  List.find?_append

theorem Definition.first?_singleton (id : String) (d : Definition) :
    first? id [d] = if d.id = id then some d else none := by
  rw [first?, List.find?_singleton]
  simp only [beq_iff_eq]

/-- At the last place with a property stands the member that is met first from
    the end. -/
theorem getElem?_lastIndex? {α : Type} (p : α → Bool) (as : List α) :
    (lastIndex? p as).bind (as[·]?) = as.reverse.find? p := by
  induction as with
  | nil => rfl
  | cons a rest ih =>
      have hspec := lastIndex?_spec p rest
      rw [lastIndex?, List.reverse_cons, List.find?_append, ← ih]
      cases hlast : lastIndex? p rest with
      | some i =>
          -- a member of the rest comes before the first one, from the end
          rw [hlast] at hspec
          obtain ⟨x, hx, -⟩ := hspec
          show (a :: rest)[i + 1]? = rest[i]?.or _
          rw [List.getElem?_cons_succ, hx]
          rfl
      | none =>
          cases hp : p a with
          | true => simp [hp]
          | false => simp [hp]

namespace Catalog

/-- **An id stands for the last definition that has it.** -/
theorem find?_eq (c : Catalog) (id : String) :
    c.find? id = Definition.first? id c.definitions.reverse := by
  rw [find?, position?, Definition.first?, ← getElem?_lastIndex?]
  cases lastIndex? (·.id == id) c.definitions with
  | some i => rfl
  | none => rfl

/-- A catalog contains what it finds. -/
theorem contains_eq_isSome (c : Catalog) (id : String) :
    c.contains id = (c.find? id).isSome := by
  have hspec := lastIndex?_spec (fun d : Definition => d.id == id) c.definitions
  rw [contains, find?, position?]
  cases hlast : lastIndex? (fun d : Definition => d.id == id) c.definitions with
  | some i =>
      rw [hlast] at hspec
      obtain ⟨d, hd, -⟩ := hspec
      dsimp only
      rw [hd]
      rfl
  | none => rfl

/-- A definition whose id is new comes behind the others. -/
theorem find?_insert_of_new {c : Catalog} {d : Definition} (h : c.contains d.id = false)
    (id : String) : (c.insert d).find? id = (c.find? id).or (Definition.first? id [d]) := by
  have hposition : c.position? d.id = none := by
    rw [contains, Option.isSome_eq_false_iff, Option.isNone_iff_eq_none] at h
    exact h
  have hinsert : c.insert d = ⟨c.definitions ++ [d]⟩ := by
    rw [insert, hposition]
  have hfind : (c.insert d).find? id = (Definition.first? id [d]).or (c.find? id) := by
    rw [hinsert, find?_eq, find?_eq, List.reverse_append, Definition.first?_append,
      List.reverse_singleton]
  rw [hfind, Definition.first?_singleton]
  by_cases hid : d.id = id
  · -- nothing stood for the id before
    rw [contains_eq_isSome, hid, Option.isSome_eq_false_iff, Option.isNone_iff_eq_none] at h
    rw [h, if_pos hid]
    rfl
  · rw [if_neg hid, Option.or_none]
    rfl

/-- **What ids stand for after merging**, by induction on the new
    definitions. -/
theorem find?_merge (c : Catalog) (ds : List Definition) (id : String) :
    (c.merge ds).2.find? id = (c.find? id).or (Definition.first? id ds) := by
  rw [merge]
  -- how many were added before does not matter
  generalize 0 = added
  induction ds generalizing added c with
  | nil => exact (Option.or_none).symm
  | cons d rest ih =>
      have hfirst : Definition.first? id (d :: rest)
          = (Definition.first? id [d]).or (Definition.first? id rest) :=
        Definition.first?_append id [d] rest
      rw [List.foldl_cons, hfirst, ← Option.or_assoc]
      dsimp only
      by_cases hknown : c.contains d.id = true
      · rw [if_pos hknown, ih, Definition.first?_singleton]
        by_cases hid : d.id = id
        · -- the id stood for something before, and goes on to do so
          rw [contains_eq_isSome, hid] at hknown
          obtain ⟨d', hd'⟩ := Option.isSome_iff_exists.1 hknown
          rw [hd']
          rfl
        · rw [if_neg hid, Option.or_none]
      · rw [if_neg hknown, ih, find?_insert_of_new (Bool.eq_false_iff.2 hknown)]

end Catalog

end Blueprints
