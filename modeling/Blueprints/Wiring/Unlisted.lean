/-! # Unlisted ids — what bounds a search

    Every search over a graph notes the ids that it has met.  It ends
    because the ids of the graph that are not noted yet become fewer. -/

namespace Blueprints

/-- The ids that a list of noted ids lacks. -/
def unlisted (ids noted : List String) : List String :=
  ids.filter fun id => id ∉ noted

theorem mem_unlisted {ids noted : List String} {id : String} :
    id ∈ unlisted ids noted ↔ id ∈ ids ∧ id ∉ noted := by
  simp [unlisted]

/-- To note more ids is to drop them from the unlisted ones. -/
theorem unlisted_eq_filter {ids noted noted' : List String}
    (sub : ∀ id ∈ noted, id ∈ noted') :
    unlisted ids noted' = (unlisted ids noted).filter fun id => id ∉ noted' := by
  rw [unlisted, unlisted, List.filter_filter]
  apply List.filter_congr
  intro id _
  by_cases h : id ∈ noted'
  · simp [h]
  · have hn : id ∉ noted := fun hn => h (sub id hn)
    simp [h, hn]

/-- Noting an id of the graph that was not noted leaves fewer unlisted. -/
theorem length_unlisted_lt {ids noted noted' : List String} {id : String}
    (sub : ∀ id ∈ noted, id ∈ noted') (known : id ∈ ids)
    (new : id ∉ noted) (now : id ∈ noted') :
    (unlisted ids noted').length < (unlisted ids noted).length := by
  rw [unlisted_eq_filter sub, List.length_filter_lt_length_iff_exists]
  exact ⟨id, mem_unlisted.2 ⟨known, new⟩, by simp [now]⟩

end Blueprints
