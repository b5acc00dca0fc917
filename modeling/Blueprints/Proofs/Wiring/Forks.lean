import Mathlib.Data.List.Induction
import Mathlib.Logic.Function.Basic
import Blueprints.Wiring.VisitedPath

/-! # Forked paths hold what was added on the way to them

    Paths are kept under names.  One may be extended in place, forked to another
    name with an id added, or cloned, in any order and as often as one likes.
    The steps on the way to a path are found by going back through the history:
    the last step that put something under its name, then the steps on the way
    to the path which that one started from.  A path holds the ids added by
    these steps, in their order (`ids_reached`), and its filter has their bits
    and no others (`exact_reached`), so an answer depends neither on the hash
    nor on what other paths went on to. -/

namespace Blueprints

/-- The bit of an id in a filter of four words: two bits of the hash select the
    word, six the bit in it. -/
theorem filterSlot_eq (hash : String → UInt64) (id : String) :
    filterSlot hash id = 64 * ((hash id >>> 6) &&& 3).toNat + (hash id &&& 63).toNat := by
  have hword : ((hash id >>> 6) &&& 3).toNat = (hash id).toNat / 64 % 4 := by
    rw [UInt64.toNat_and, UInt64.toNat_shiftRight]
    exact (Nat.and_two_pow_sub_one_eq_mod _ 2).trans (by rw [Nat.shiftRight_eq_div_pow]; rfl)
  have hbit : (hash id &&& 63).toNat = (hash id).toNat % 64 := by
    rw [UInt64.toNat_and]
    exact Nat.and_two_pow_sub_one_eq_mod _ 6
  rw [filterSlot, hword, hbit]
  omega

namespace VisitedPath

/-! ## Filters -/

variable {hash : String → UInt64}

/-- The filter has the bits of the ids on the path and no others. -/
def Exact (p : VisitedPath hash) : Prop :=
  ∀ i, p.filter.getLsbD i = true ↔ ∃ id ∈ p.latest, filterSlot hash id = i

theorem exact_empty : (empty : VisitedPath hash).Exact := by
  intro i
  simp [empty]

/-- **To add an id sets its bit and no other.** -/
theorem Exact.extend {p : VisitedPath hash} (h : p.Exact) (id : String) : (p.extend id).Exact := by
  intro i
  have hbound : filterSlot hash id < 256 := Nat.mod_lt _ (by decide)
  have hbit : (BitVec.twoPow 256 (filterSlot hash id)).getLsbD i = true
      ↔ filterSlot hash id = i := by
    simp [BitVec.getLsbD_twoPow, hbound]
  show ((p.filter ||| BitVec.twoPow 256 (filterSlot hash id)).getLsbD i = true) ↔ _
  rw [BitVec.getLsbD_or, Bool.or_eq_true, h i, hbit, latest_extend, or_comm]
  simp only [List.mem_cons, or_and_right, exists_or, exists_eq_left]

/-- The filter never changes an answer. -/
theorem contains_eq_search (p : VisitedPath hash) (id : String) :
    p.contains id = p.latest.contains id := by
  rw [Bool.eq_iff_iff, contains_iff_mem, List.contains_iff_mem]

/-! ## Steps -/

/-- What can be done with named paths. -/
inductive Step where
  | insert (path id : String)
  | fork (path id branch : String)
  | clone (path copy : String)
  deriving DecidableEq

namespace Step

/-- The name that a step puts a path under. -/
def target : Step → String
  | insert path _ => path
  | fork _ _ branch => branch
  | clone _ copy => copy

/-- The name of the path that a step starts from. -/
def origin : Step → String
  | insert path _ => path
  | fork path _ _ => path
  | clone path _ => path

/-- The id that a step adds. -/
def added? : Step → Option String
  | insert _ id => some id
  | fork _ id _ => some id
  | clone _ _ => none

/-- The paths after a step. -/
def apply (paths : String → VisitedPath hash) : Step → String → VisitedPath hash
  | insert path id => Function.update paths path ((paths path).extend id)
  | fork path id branch => Function.update paths branch ((paths path).extend id)
  | clone path copy => Function.update paths copy (paths path)

end Step

/-- The paths after a history.  All of them start empty. -/
def reached (steps : List Step) : String → VisitedPath hash :=
  steps.foldl Step.apply fun _ => empty

/-- The steps on the way to a path, the first one first, from a history that has
    its last step first. -/
def traced : List Step → String → List Step
  | [], _ => []
  | s :: earlier, name =>
    if s.target = name then traced earlier s.origin ++ [s] else traced earlier name

/-- The ids that were added on the way to a path, the first one first. -/
def additions (steps : List Step) (name : String) : List String :=
  (traced steps.reverse name).filterMap Step.added?

/-- The last step tells what is on the way to the path that it puts something under,
    and to no other. -/
theorem additions_snoc (steps : List Step) (s : Step) (name : String) :
    additions (steps ++ [s]) name
      = if s.target = name then additions steps s.origin ++ s.added?.toList
        else additions steps name := by
  rw [additions, List.reverse_append, List.reverse_singleton, List.singleton_append, traced]
  split
  · rw [List.filterMap_append, List.filterMap_cons, List.filterMap_nil]
    cases s.added? with
    | none => rfl
    | some id => rfl
  · rfl

theorem reached_snoc (steps : List Step) (s : Step) :
    (reached (steps ++ [s]) : String → VisitedPath hash) = s.apply (reached steps) := by
  rw [reached, List.foldl_append]
  rfl

/-! ## One step -/

section Apply

variable (paths : String → VisitedPath hash) (s : Step)

/-- A step changes the path under its target only. -/
theorem apply_of_ne {name : String} (h : s.target ≠ name) : s.apply paths name = paths name := by
  cases s with
  | _ => exact Function.update_of_ne h.symm _ _

/-- Under its target a step puts the path which it starts from, with its id. -/
theorem apply_target : s.apply paths s.target
    = s.added?.elim (paths s.origin) (paths s.origin).extend := by
  cases s with
  | _ => exact Function.update_self _ _ _

/-- One step changes the path that it puts something under, and no other. -/
theorem ids_apply (name : String) : (s.apply paths name).ids
    = if s.target = name then (paths s.origin).ids ++ s.added?.toList else (paths name).ids := by
  split
  · next htarget =>
    rw [← htarget, apply_target]
    cases s.added? with
    | none => exact (List.append_nil _).symm
    | some id => exact List.reverse_cons
  · next hother => rw [apply_of_ne paths s hother]

/-- **One step keeps all filters exact.** -/
theorem exact_apply (h : ∀ name, (paths name).Exact) (name : String) :
    (s.apply paths name).Exact := by
  by_cases htarget : s.target = name
  · rw [← htarget, apply_target]
    cases s.added? with
    | none => exact h s.origin
    | some id => exact (h s.origin).extend id
  · rw [apply_of_ne paths s htarget]
    exact h name

end Apply

/-! ## Histories -/

variable (hash)

/-- **A path holds what was added on the way to it**, in the order in which it was
    added. -/
theorem ids_reached (steps : List Step) (name : String) :
    (reached steps name : VisitedPath hash).ids = additions steps name := by
  -- the last step may have started from any path, so the statement is about all names
  induction steps using List.reverseRecOn generalizing name with
  | nil => rfl
  | append_singleton steps s ih =>
      rw [reached_snoc, ids_apply, additions_snoc, ih, ih]

/-- **Every filter is exact**, after any history. -/
theorem exact_reached (steps : List Step) (name : String) :
    (reached steps name : VisitedPath hash).Exact := by
  induction steps using List.reverseRecOn generalizing name with
  | nil => exact exact_empty
  | append_singleton steps s ih =>
      rw [reached_snoc]
      exact exact_apply _ s ih name

/-- The ids on a path are those that were added on the way to it. -/
theorem mem_latest_reached (steps : List Step) (name id : String) :
    id ∈ (reached steps name : VisitedPath hash).latest ↔ id ∈ additions steps name := by
  rw [← ids_reached hash, ids, List.mem_reverse]

/-- Steps that put nothing under a name leave its path as it is. -/
theorem reached_append_of_forall_ne (steps more : List Step) {name : String}
    (h : ∀ s ∈ more, s.target ≠ name) :
    (reached (steps ++ more) name : VisitedPath hash) = reached steps name := by
  induction more using List.reverseRecOn with
  | nil => rw [List.append_nil]
  | append_singleton more s ih =>
      rw [List.forall_mem_append, List.forall_mem_singleton] at h
      rw [← List.append_assoc, reached_snoc, apply_of_ne _ s h.2, ih h.1]

/-- **A path with a filter is a list of ids.**  Whatever the hash and the history,
    a path answers for the ids that were added on the way to it, as a search
    without the filter does; it counts and shows them in their order, its filter
    has their bits only, and it stays as it is when other paths are made. -/
theorem reached_exactly (steps : List Step) (name : String) :
    (∀ id, (reached steps name : VisitedPath hash).contains id = true
        ↔ id ∈ additions steps name)
    ∧ (∀ id, (reached steps name : VisitedPath hash).contains id
        = (reached steps name : VisitedPath hash).latest.contains id)
    ∧ (reached steps name : VisitedPath hash).length = (additions steps name).length
    ∧ (reached steps name : VisitedPath hash).ids = additions steps name
    ∧ (reached steps name : VisitedPath hash).shown = Text.shownList (additions steps name)
    ∧ (∀ i, (reached steps name : VisitedPath hash).filter.getLsbD i = true
        ↔ ∃ id ∈ additions steps name,
          64 * ((hash id >>> 6) &&& 3).toNat + (hash id &&& 63).toNat = i)
    ∧ ∀ more : List Step, (∀ s ∈ more, s.target ≠ name) →
      (reached (steps ++ more) name : VisitedPath hash) = reached steps name := by
  refine ⟨fun id => ?_, fun id => contains_eq_search _ id, ?_, ids_reached hash steps name, ?_,
    fun i => ?_, fun more => reached_append_of_forall_ne hash steps more⟩
  · rw [contains_iff_mem, mem_latest_reached]
  · rw [← ids_reached hash, ids, List.length_reverse]
    exact counts _
  · rw [shown, ids_reached]
  · rw [exact_reached hash steps name i]
    simp only [mem_latest_reached, filterSlot_eq]

/-! ### Two branches -/

namespace Branches

/-- Two branches from one start, and a copy of the first. -/
def steps : List Step :=
  [.insert "root" "start", .fork "root" "a" "left", .fork "root" "b" "right",
    .clone "left" "copy"]

/-- Under a hash by which all ids share one bit, each branch has its own id and
    not that of the other, before and after the first goes on. -/
theorem left_apart_from_right :
    (reached steps "left" : VisitedPath fun _ => 0).filter
        = (reached steps "right" : VisitedPath fun _ => 0).filter
      ∧ (reached steps "left" : VisitedPath fun _ => 0).contains "b" = false
      ∧ (reached steps "copy" : VisitedPath fun _ => 0).shown = "[\"start\", \"a\"]"
      ∧ (∀ s ∈ [Step.insert "left" "c"], s.target ≠ "copy")
      ∧ (reached (steps ++ [.insert "left" "c"]) "copy" : VisitedPath fun _ => 0)
        = reached steps "copy" := by
  obtain ⟨hcontains, -⟩ := reached_exactly (fun _ => 0) steps "left"
  obtain ⟨-, -, -, -, hshown, -, hkept⟩ := reached_exactly (fun _ => 0) steps "copy"
  have hother : ∀ s ∈ [Step.insert "left" "c"], s.target ≠ "copy" := by decide
  refine ⟨by decide, ?_, ?_, hother, hkept _ hother⟩
  · rw [Bool.eq_false_iff, ne_eq, hcontains]
    decide
  · rw [hshown]
    decide

end Branches

end VisitedPath

end Blueprints
