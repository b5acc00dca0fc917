import Blueprints.Graph.Basic

/-! # Catalogs of definitions

    A catalog is a list of definitions that are looked up by id.  The last
    definition with an id is the one that the id stands for: an edit that
    gives a definition the id of another one leaves both in the list. -/

namespace Blueprints

/-- Definitions in the order in which they were added. -/
structure Catalog where
  definitions : List Definition := []
  deriving DecidableEq

/-- The place of the last member of a list that has a property. -/
def lastIndex? {α : Type} (p : α → Bool) : List α → Option Nat
  | [] => none
  | a :: rest =>
    match lastIndex? p rest with
    | some i => some (i + 1)
    | none => if p a then some 0 else none

namespace Catalog

/-- The catalog without definitions. -/
def empty : Catalog := {}

/-- The number of definitions. -/
def size (c : Catalog) : Nat := c.definitions.length

/-- The place of the definition that an id stands for. -/
def position? (c : Catalog) (id : String) : Option Nat :=
  lastIndex? (·.id == id) c.definitions

/-- The definition that an id stands for. -/
def find? (c : Catalog) (id : String) : Option Definition :=
  match c.position? id with
  | some i => c.definitions[i]?
  | none => none

/-- Whether an id stands for a definition. -/
def contains (c : Catalog) (id : String) : Bool :=
  (c.position? id).isSome

/-- Adds a definition, in place of the one that its id stood for. -/
def insert (c : Catalog) (d : Definition) : Catalog :=
  match c.position? d.id with
  | some i => ⟨c.definitions.set i d⟩
  | none => ⟨c.definitions ++ [d]⟩

/-- The catalog of a list of definitions.  Of two with one id the later one
    counts, in the place of the earlier one. -/
def ofList (ds : List Definition) : Catalog :=
  ds.foldl insert empty

/-- Edits the definition that an id stands for; none if there is none. -/
def update? (c : Catalog) (id : String) (edit : Definition → Definition) : Option Catalog :=
  match c.position? id with
  | some i => some ⟨c.definitions.modify i edit⟩
  | none => none

/-- Takes out the definition that an id stands for. -/
def remove (c : Catalog) (id : String) : Option Definition × Catalog :=
  match c.position? id with
  | some i => (c.definitions[i]?, ⟨c.definitions.eraseIdx i⟩)
  | none => (none, c)

/-- Adds the definitions whose ids do not stand for one yet, and counts
    them. -/
def merge (c : Catalog) (ds : List Definition) : Nat × Catalog :=
  ds.foldl
    (fun (added, c) d => if c.contains d.id then (added, c) else (added + 1, c.insert d))
    (0, c)

/-- Puts a definition into the group of its category, the last group if
    there is none yet. -/
def addToGroup (d : Definition) :
    List (String × List Definition) → List (String × List Definition)
  | [] => [(d.category, [d])]
  | (category, members) :: rest =>
    if category == d.category then (category, members ++ [d]) :: rest
    else (category, members) :: addToGroup d rest

/-- The definitions by category, in the order in which they are met. -/
def groups (c : Catalog) : List (String × List Definition) :=
  c.definitions.foldl (fun gs d => addToGroup d gs) []

end Catalog

end Blueprints
