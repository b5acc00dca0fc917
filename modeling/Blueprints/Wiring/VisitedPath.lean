import Blueprints.Text.Quoted

/-! # Visited paths

    A visited path is the list of ids that were met on the way to a place.
    It is extended at its end without a change to the path it came from, so
    that branches share what they have in common.  Beside the ids it keeps a
    filter of 256 bits: the bit that the hash of an id selects is set for
    every id on the path.  An id whose bit is not set is not on the path,
    and most questions are answered by this look alone.  The number of ids
    is counted along, so that it is known without a walk over the path. -/

namespace Blueprints

/-- The bit of the filter that an id selects. -/
def filterSlot (hash : String → UInt64) (id : String) : Nat :=
  (hash id).toNat % 256

/-- The ids on the way to a place, by a hash function for the filter. -/
structure VisitedPath (hash : String → UInt64) where
  /-- The ids, the last one first. -/
  latest : List String
  /-- The number of ids that were met. -/
  length : Nat
  filter : BitVec 256
  /-- The count is that of the ids. -/
  counts : length = latest.length
  /-- The bit of every id on the path is set. -/
  covers : ∀ id ∈ latest, filter.getLsbD (filterSlot hash id) = true

namespace VisitedPath

variable {hash : String → UInt64}

/-- The path on which nothing was met. -/
def empty : VisitedPath hash := ⟨[], 0, 0, rfl, by simp⟩

/-- Whether an id is on the path. -/
def contains (p : VisitedPath hash) (id : String) : Bool :=
  p.filter.getLsbD (filterSlot hash id) && p.latest.contains id

/-- The path that goes on to an id. -/
def extend (p : VisitedPath hash) (id : String) : VisitedPath hash where
  latest := id :: p.latest
  length := p.length + 1
  filter := p.filter ||| BitVec.twoPow 256 (filterSlot hash id)
  counts := congrArg (· + 1) p.counts
  covers := by
    intro x hx
    have bound : filterSlot hash x < 256 := Nat.mod_lt _ (by decide)
    simp only [BitVec.getLsbD_or, Bool.or_eq_true]
    cases hx with
    | head => exact Or.inr (by simp [bound])
    | tail _ h => exact Or.inl (p.covers x h)

/-- The ids in the order in which they were met. -/
def ids (p : VisitedPath hash) : List String := p.latest.reverse

/-- The ids in their order, shown as a list. -/
def shown (p : VisitedPath hash) : String := Text.shownList p.ids

/-- The filter never hides an id that is on the path. -/
@[simp] theorem contains_iff_mem {p : VisitedPath hash} {id : String} :
    p.contains id = true ↔ id ∈ p.latest := by
  simp only [contains, Bool.and_eq_true, List.contains_iff_mem]
  exact ⟨fun h => h.2, fun h => ⟨p.covers id h, h⟩⟩

@[simp] theorem latest_extend {p : VisitedPath hash} {id : String} :
    (p.extend id).latest = id :: p.latest := rfl

/-- Every id on the first path is on the second. -/
def Within (p q : VisitedPath hash) : Prop := ∀ id ∈ p.latest, id ∈ q.latest

theorem Within.refl (p : VisitedPath hash) : p.Within p := fun _ h => h

theorem Within.trans {p q r : VisitedPath hash} (hpq : p.Within q) (hqr : q.Within r) :
    p.Within r :=
  fun id h => hqr id (hpq id h)

end VisitedPath

/-- A hash of ids: their characters, one after the other, mixed into a word. -/
def fingerprint (id : String) : UInt64 :=
  id.toList.foldl (fun h c => (h ^^^ c.val.toUInt64) * 1099511628211) 14695981039346656037

/-- The path by which a traversal has come. -/
abbrev Trail := VisitedPath fingerprint

end Blueprints
