import Blueprints.Catalog.Basic
import Blueprints.Graph.Kind
import Blueprints.Wiring.Index
import Blueprints.Wiring.Unlisted

/-! # Variable readers

    A pure node is a *variable reader* if it reads a variable, or if a
    variable reader is connected to it.  What a variable reader computes may
    differ each time, so its value is never kept. -/

namespace Blueprints

/-- The kind of a node, if its definition is known and has one. -/
def Catalog.kind? (catalog : Catalog) (n : Node) : Option NodeKind :=
  match catalog.find? n.definitionId with
  | some d => NodeKind.ofDefinition? d.id
  | none => none

/-- Whether a node only computes a value. -/
def Catalog.isPure (catalog : Catalog) (n : Node) : Bool :=
  match catalog.kind? n with
  | some kind => kind.isPure
  | none => false

/-- Whether an id is that of a pure node. -/
def Index.isPure (index : Index) (catalog : Catalog) (id : String) : Bool :=
  match index.node? id with
  | some n => catalog.isPure n
  | none => false

theorem Index.mem_nodeIds_of_isPure {index : Index} {catalog : Catalog} {id : String}
    (h : index.isPure catalog id = true) : id ∈ index.nodeIds := by
  unfold Index.isPure at h
  split at h
  · next found => exact mem_nodeIds_of_node? found
  · cases h

namespace Readers

/-- The pure nodes that connections lead to from some nodes and that are
    not readers yet, each of them once. -/
def fedBy (index : Index) (catalog : Catalog) (readers ids : List String) : List String :=
  (((ids.flatMap index.leaving).map (·.target.node)).filter fun fed =>
    index.isPure catalog fed && !readers.contains fed).eraseDups

/-- What is fed is a node, and no reader yet. -/
theorem mem_fedBy {index : Index} {catalog : Catalog} {readers ids : List String}
    {fed : String} (h : fed ∈ fedBy index catalog readers ids) :
    fed ∈ index.nodeIds ∧ fed ∉ readers := by
  have hcond := (List.mem_filter.1 (List.mem_eraseDups.1 h)).2
  simp only [Bool.and_eq_true, Bool.not_eq_true', ← Bool.not_eq_true,
    List.contains_iff_mem] at hcond
  exact ⟨Index.mem_nodeIds_of_isPure hcond.1, hcond.2⟩

/-- The readers that are reached from the pending ones, added to those that
    are known: those one connection away, then those one more away, until
    none is new. -/
def close (index : Index) (catalog : Catalog) (readers pending : List String) : List String :=
  match _fed : fedBy index catalog readers pending with
  | [] => readers
  | fed :: more => close index catalog (readers ++ fed :: more) (fed :: more)
termination_by (unlisted index.nodeIds readers).length
decreasing_by
  have hfed := mem_fedBy (_fed ▸ List.mem_cons_self : fed ∈ fedBy index catalog readers pending)
  exact length_unlisted_lt (fun _ h => List.mem_append_left _ h) hfed.1 hfed.2 (by simp)

end Readers

/-- The ids of the variable readers of a blueprint. -/
def variableReaders (b : Blueprint) (catalog : Catalog) (index : Index) : List String :=
  let direct := (b.nodes.filter fun n => catalog.kind? n == some (.pure .getVariable)).map Node.id
  Readers.close index catalog direct direct

end Blueprints
