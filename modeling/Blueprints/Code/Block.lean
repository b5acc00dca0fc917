import Blueprints.Total

/-! # Blocks of lines

    Lines are gathered in blocks.  A block is reserved at its place in
    another one before its lines are known, and is filled at any time
    after.  Every block stands under a greater number than the block that
    holds it, so going from a block to those in it comes to an end. -/

namespace Blueprints

/-- The ways in which a block stands in another one. -/
inductive Place where
  /-- One level deeper. -/
  | nested
  /-- At the same level. -/
  | inline
  /-- One level deeper and after an `else`, neither of which is written if
      the block has no lines. -/
  | otherwise
  deriving DecidableEq, Repr

/-- A member of a block: a line, or a block at a place. -/
inductive Item (α : Type) where
  | line (line : α)
  | block (place : Place) (child : Nat)
  deriving DecidableEq, Repr

namespace Item

variable {α : Type}

/-- The block that an item holds. -/
def child? : Item α → Option Nat
  | .line _ => none
  | .block _ child => some child

/-- Whether an item is a line. -/
def isLine : Item α → Bool
  | .line _ => true
  | .block .. => false

end Item

/-- A block in another one has the greater number. -/
def Forward {α : Type} (blocks : Array (Array (Item α))) : Prop :=
  ∀ (id : Nat) (items : Array (Item α)), blocks[id]? = some items →
    ∀ item ∈ items, ∀ child ∈ item.child?, id < child

/-- Blocks by their numbers. -/
structure Arena (α : Type) where
  blocks : Array (Array (Item α))
  forward : Forward blocks

namespace Arena

variable {α : Type}

/-- The outermost block. -/
def root : Nat := 0

/-- The outermost block alone, without lines. -/
def new : Arena α where
  blocks := #[#[]]
  forward := by
    intro id items h item hitem
    rw [List.getElem?_toArray] at h
    cases id with
    | zero => simp at h; subst h; simp at hitem
    | succ n => simp at h

/-- The items of a block; a number without a block has none. -/
def items (a : Arena α) (id : Nat) : Array (Item α) := a.blocks.getD id #[]

/-- A block holds newer ones only. -/
theorem lt_child {a : Arena α} {id : Nat} {item : Item α} {child : Nat}
    (hitem : item ∈ a.items id) (hchild : item.child? = some child) : id < child := by
  by_cases h : id < a.blocks.size
  · refine a.forward id (a.items id) ?_ item hitem child hchild
    simp [items, Array.getD, h]
  · simp [items, Array.getD, h] at hitem

/-- What has a member is a block that is there. -/
theorem lt_size_of_mem {a : Arena α} {id : Nat} {item : Item α}
    (hitem : item ∈ a.items id) : id < a.blocks.size := by
  by_cases h : id < a.blocks.size
  · exact h
  · simp [items, Array.getD, h] at hitem

/-- An item at the end of a block keeps the order of numbers if the block
    in it has a greater number. -/
theorem forward_push {blocks : Array (Array (Item α))} {id : Nat} {item : Item α}
    (forward : Forward blocks)
    (greater : ∀ child ∈ item.child?, id < blocks.size → id < child) :
    Forward (blocks.modify id (·.push item)) := by
  intro id' items h item' hitem' child hchild
  rw [Array.getElem?_modify] at h
  by_cases heq : id = id'
  · subst heq
    rw [if_pos rfl] at h
    obtain ⟨before, hbefore, rfl⟩ := Option.map_eq_some_iff.1 h
    rcases Array.mem_push.1 hitem' with hold | hnew
    · exact forward _ _ hbefore _ hold _ hchild
    · subst hnew
      exact greater child hchild (Array.getElem?_eq_some_iff.1 hbefore).1
  · rw [if_neg heq] at h
    exact forward _ _ h _ hitem' _ hchild

/-- Writes a line at the end of a block. -/
def line (a : Arena α) (id : Nat) (line : α) : Arena α where
  blocks := a.blocks.modify id (·.push (.line line))
  forward := forward_push a.forward (by simp [Item.child?])

/-- Reserves a block at the end of another one. -/
def reserve (a : Arena α) (place : Place) (id : Nat) : Nat × Arena α :=
  let child := a.blocks.size
  (child,
    { blocks := (a.blocks.modify id (·.push (.block place child))).push #[]
      forward := by
        have old : Forward (a.blocks.modify id (·.push (.block place child))) :=
          forward_push a.forward fun c hc h => by
            simp only [Item.child?, Option.mem_def, Option.some.injEq] at hc
            omega
        intro id' items h item hitem c hc
        rw [Array.getElem?_push] at h
        split at h
        · cases h; simp at hitem
        · exact old id' items h item hitem c hc })

/-! ## How much is written

    The weight of an item counts the steps that it takes to write it out,
    those for the blocks in it included. -/

/-- How many numbers a block has above it. -/
def height (a : Arena α) (id : Nat) : Nat := a.blocks.size - id

/-- The blocks in a block are lower than it. -/
theorem height_lt {a : Arena α} {id child : Nat} {item : Item α}
    (hitem : item ∈ a.items id) (hchild : item.child? = some child) :
    a.height child < a.height id := by
  have hlt := lt_child hitem hchild
  have hsize := lt_size_of_mem hitem
  unfold height
  omega

/-- The steps that it takes to write out a block. -/
def steps (a : Arena α) (id : Nat) : Nat :=
  1 + total ((a.items id).toList.attach.map fun ⟨item, _member⟩ =>
    match _child : item.child? with
    | none => 1
    | some child => 1 + a.steps child)
termination_by a.height id
decreasing_by exact height_lt (Array.mem_toList_iff.1 _member) _child

/-- The steps that it takes to write out an item. -/
def weight (a : Arena α) (item : Item α) : Nat :=
  match item.child? with
  | none => 1
  | some child => 1 + a.steps child

/-- The steps for a block are one for its end and those for its members. -/
theorem steps_eq (a : Arena α) (id : Nat) :
    a.steps id = 1 + total ((a.items id).toList.map a.weight) := by
  rw [steps]
  conv =>
    rhs
    rw [← List.attach_map_subtype_val (a.items id).toList, List.map_map]
  congr 2
  apply List.map_congr_left
  intro item _
  simp only [Function.comp, weight]
  split <;> simp [*]

/-! ## Emptiness -/

/-- The blocks in a block. -/
def children (a : Arena α) (id : Nat) : List Nat :=
  (a.items id).toList.filterMap Item.child?

/-- The blocks in a block take no more steps than all its members. -/
theorem total_steps_children (a : Arena α) (items : List (Item α)) :
    total ((items.filterMap Item.child?).map a.steps) ≤ total (items.map a.weight) := by
  induction items with
  | nil => exact Nat.le_refl _
  | cons item items ih =>
    rw [List.filterMap_cons, List.map_cons, total_cons, weight]
    cases item.child? with
    | none => exact Nat.le_trans ih (Nat.le_add_left _ _)
    | some child =>
      show a.steps child + total ((items.filterMap Item.child?).map a.steps)
        ≤ 1 + a.steps child + total (items.map a.weight)
      omega

/-- Whether none of the blocks on a stack has a line, nor any block in
    them. -/
def noLines (a : Arena α) (stack : List Nat) : Bool :=
  match stack with
  | [] => true
  | id :: rest =>
    if (a.items id).any Item.isLine then false
    else noLines a (a.children id ++ rest)
termination_by total (stack.map a.steps)
decreasing_by
  have h := total_steps_children a (a.items id).toList
  rw [List.map_append, total_append, List.map_cons, total_cons, steps_eq a id, children]
  omega

/-- Whether a block has no lines, nor any block in it. -/
def isEmpty (a : Arena α) (id : Nat) : Bool := a.noLines [id]

/-! ## Writing out -/

/-- A place in a block at which writing goes on. -/
structure Frame where
  block : Nat
  position : Nat
  depth : Nat

/-- The place after one. -/
def Frame.next (f : Frame) : Frame := { f with position := f.position + 1 }

/-- The steps that are left from a place on. -/
def left (a : Arena α) (f : Frame) : Nat :=
  1 + total (((a.items f.block).toList.drop f.position).map a.weight)

theorem left_start (a : Arena α) (id depth : Nat) : a.left ⟨id, 0, depth⟩ = a.steps id := by
  rw [steps_eq]
  rfl

/-- The next member takes its steps off those that are left. -/
theorem left_eq {a : Arena α} {f : Frame} {item : Item α}
    (h : (a.items f.block)[f.position]? = some item) :
    a.left f = a.weight item + a.left f.next := by
  rw [← Array.getElem?_toList] at h
  obtain ⟨bound, rfl⟩ := List.getElem?_eq_some_iff.1 h
  rw [left, List.drop_eq_getElem_cons bound, List.map_cons, total_cons]
  show _ = _ + (1 + total (((a.items f.block).toList.drop (f.position + 1)).map a.weight))
  omega

/-- A line at a depth; an empty line is not indented. -/
def indented (unit : String) (depth : Nat) (text : String) : String :=
  if text.isEmpty then "" else String.join (List.replicate depth unit) ++ text

/-- The line between a block and the one that stands in for it. -/
def elseLine : String := "\x7d else \x7b"

/-- Writes out what is left from the places on a stack, after the lines
    that were written, the last of them first. -/
def write (a : Arena α) (text : α → String) (unit : String) (stack : List Frame)
    (written : List String) : List String :=
  match stack with
  | [] => written.reverse
  | f :: rest =>
    match _found : (a.items f.block)[f.position]? with
    | none => write a text unit rest written
    | some (.line line) =>
      write a text unit (f.next :: rest)
        (indented unit f.depth (text line) :: written)
    | some (.block .nested child) =>
      write a text unit
        (⟨child, 0, f.depth + 1⟩ :: f.next :: rest) written
    | some (.block .inline child) =>
      write a text unit
        (⟨child, 0, f.depth⟩ :: f.next :: rest) written
    | some (.block .otherwise child) =>
      if a.isEmpty child then
        write a text unit (f.next :: rest) written
      else
        write a text unit
          (⟨child, 0, f.depth + 1⟩ :: f.next :: rest)
          (indented unit f.depth elseLine :: written)
termination_by total (stack.map a.left)
decreasing_by
  all_goals simp only [List.map_cons, total_cons]
  · have : 0 < a.left f := Nat.lt_add_right _ Nat.one_pos
    omega
  all_goals
    have h := left_eq _found
    simp only [weight, Item.child?] at h
    try rw [left_start]
    omega

/-- The lines of a block and of the blocks in it, from a depth on. -/
def render (a : Arena α) (text : α → String) (unit : String) (depth : Nat) (id : Nat) :
    List String :=
  a.write text unit [⟨id, 0, depth⟩] []

end Arena

end Blueprints
