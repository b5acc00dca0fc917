import Blueprints.Code.Block

/-! # Blocks as lists — what writing and reserving do

    The view of an arena that proofs use is the list of members of each
    block (`body`).  Writing a line and reserving a block each put one member
    at the end of one block and leave every other member where it is, so
    every place that was written once stays as it is (`Keeps`).

    A block that is reserved gets the next number.  So the numbers of all
    blocks that stand in a block are those of blocks that exist (`Closed`). -/

namespace Blueprints

namespace Arena

variable {α : Type}

/-- The members of a block, in their order. -/
def body (a : Arena α) (id : Nat) : List (Item α) := (a.items id).toList

/-- The number of blocks. -/
def size (a : Arena α) : Nat := a.blocks.size

/-- Pushing an item to one block leaves every other one as it was; a block that does
    not exist takes nothing. -/
theorem getD_modify_push (blocks : Array (Array (Item α))) (b id : Nat) (item : Item α) :
    ((blocks.modify b (·.push item)).getD id #[]).toList
      = if id = b ∧ b < blocks.size then (blocks.getD b #[]).toList ++ [item]
        else (blocks.getD id #[]).toList := by
  rw [Array.getD_eq_getD_getElem?, Array.getD_eq_getD_getElem?, Array.getD_eq_getD_getElem?,
    Array.getElem?_modify]
  by_cases hid : b = id
  · subst hid
    by_cases hb : b < blocks.size
    · simp [hb]
    · simp [hb]
  · have hne : ¬(id = b ∧ b < blocks.size) := fun h => hid h.1.symm
    rw [if_neg hid, if_neg hne]

/-- A line opens no block. -/
@[simp] theorem size_line (a : Arena α) (b : Nat) (l : α) : (a.line b l).size = a.size :=
  Array.size_modify

/-- **Only the block written to grows**, by the line at its end. -/
theorem body_line (a : Arena α) (b id : Nat) (l : α) :
    (a.line b l).body id
      = if id = b ∧ b < a.size then a.body b ++ [.line l] else a.body id :=
  getD_modify_push a.blocks b id (.line l)

@[simp] theorem reserve_fst (a : Arena α) (place : Place) (b : Nat) :
    (a.reserve place b).1 = a.size := rfl

/-- Reserving opens one block. -/
@[simp] theorem size_reserve (a : Arena α) (place : Place) (b : Nat) :
    (a.reserve place b).2.size = a.size + 1 := by
  show ((a.blocks.modify b (·.push (.block place a.blocks.size))).push #[]).size = _
  rw [Array.size_push, Array.size_modify]
  rfl

/-- **Only the block reserved in grows**, by the new block's number at its end. The
    new block itself is empty. -/
theorem body_reserve (a : Arena α) (place : Place) (b id : Nat) :
    (a.reserve place b).2.body id
      = if id = b ∧ b < a.size then a.body b ++ [.block place a.size] else a.body id := by
  refine Eq.trans ?_ (getD_modify_push a.blocks b id (.block place a.blocks.size))
  show (((a.blocks.modify b (·.push (.block place a.blocks.size))).push #[]).getD id #[]).toList
    = _
  rw [Array.getD_eq_getD_getElem?, Array.getD_eq_getD_getElem?, Array.getElem?_push]
  by_cases hid : id = (a.blocks.modify b (·.push (.block place a.blocks.size))).size
  · -- the new block has no members, and neither has a number without a block
    rw [if_pos hid, hid, Array.getElem?_size]
    rfl
  · rw [if_neg hid]

/-- A block that does not exist has nothing in it. -/
theorem body_eq_nil_of_le {a : Arena α} {id : Nat} (h : a.size ≤ id) : a.body id = [] := by
  show (a.blocks.getD id #[]).toList = []
  rw [Array.getD_eq_getD_getElem?, Array.getElem?_eq_none h]
  rfl

/-- Where there is an item, there is a block. -/
theorem lt_size_of_getElem? {a : Arena α} {id i : Nat} {item : Item α}
    (h : (a.body id)[i]? = some item) : id < a.size := by
  rcases Nat.lt_or_ge id a.size with hlt | hge
  · exact hlt
  · rw [body_eq_nil_of_le hge] at h
    exact absurd h (by simp)

/-- A block's children carry larger numbers, so that the blocks form a tree and
    rendering ends. -/
theorem lt_of_mem_body {a : Arena α} {id child : Nat} {place : Place}
    (h : .block place child ∈ a.body id) : id < child :=
  @lt_child _ _ _ (.block place child) _ (Array.mem_toList_iff.1 h) rfl

@[simp] theorem size_new : (Arena.new : Arena α).size = 1 := rfl

/-- A new arena has nothing written in it. -/
@[simp] theorem body_new (id : Nat) : (Arena.new : Arena α).body id = [] := by
  cases id with
  | zero => rfl
  | succ id => exact body_eq_nil_of_le (Nat.le_add_left 1 id)

/-! ## Lines one after the other -/

/-- Writes lines at the end of a block. -/
def lines (a : Arena α) (b : Nat) (ls : List α) : Arena α := ls.foldl (fun a l => a.line b l) a

@[simp] theorem lines_nil (a : Arena α) (b : Nat) : a.lines b [] = a := rfl

@[simp] theorem lines_cons (a : Arena α) (b : Nat) (l : α) (ls : List α) :
    a.lines b (l :: ls) = (a.line b l).lines b ls := rfl

/-- Lines written in two goes are the lines written in one. -/
theorem lines_append (a : Arena α) (b : Nat) (ls ls' : List α) :
    a.lines b (ls ++ ls') = (a.lines b ls).lines b ls' :=
  List.foldl_append

/-- Lines open no block. -/
@[simp] theorem size_lines (a : Arena α) (b : Nat) (ls : List α) :
    (a.lines b ls).size = a.size := by
  induction ls generalizing a with
  | nil => rfl
  | cons l ls ih => rw [lines_cons, ih, size_line]

/-- The lines stand in the block in the order they were written in, after what it
    had. -/
theorem body_lines {a : Arena α} {b : Nat} (hb : b < a.size) (ls : List α) :
    (a.lines b ls).body b = a.body b ++ ls.map .line := by
  induction ls generalizing a with
  | nil => exact (List.append_nil _).symm
  | cons l ls ih =>
      rw [lines_cons, ih (by rw [size_line]; exact hb), body_line, if_pos ⟨rfl, hb⟩]
      simp

/-! ## What is written stays -/

/-- Every member of a block keeps its place in the second arena. -/
structure Keeps (a a' : Arena α) : Prop where
  size : a.size ≤ a'.size
  body : ∀ {id i : Nat} {item : Item α},
    (a.body id)[i]? = some item → (a'.body id)[i]? = some item

/-- Nothing written keeps everything. -/
theorem Keeps.refl (a : Arena α) : a.Keeps a := ⟨Nat.le_refl _, fun h => h⟩

/-- What two writings keep one after the other, both keep. -/
theorem Keeps.trans {a a' a'' : Arena α} (h : a.Keeps a') (h' : a'.Keeps a'') : a.Keeps a'' :=
  ⟨Nat.le_trans h.size h'.size, fun hi => h'.body (h.body hi)⟩

/-- Blocks never shrink. -/
theorem Keeps.length_le {a a' : Arena α} (h : a.Keeps a') (id : Nat) :
    (a.body id).length ≤ (a'.body id).length := by
  rcases Nat.eq_zero_or_pos (a.body id).length with hz | hpos
  · rw [hz]
    exact Nat.zero_le _
  · have hlast : (a.body id)[(a.body id).length - 1]?
        = some ((a.body id)[(a.body id).length - 1]) := List.getElem?_eq_getElem (by omega)
    obtain ⟨hlt, -⟩ := List.getElem?_eq_some_iff.1 (h.body hlast)
    omega

/-- A line is written after what is there. -/
theorem keeps_line (a : Arena α) (b : Nat) (l : α) : a.Keeps (a.line b l) := by
  refine ⟨Nat.le_of_eq (size_line a b l).symm, fun {id i item} hi => ?_⟩
  rw [body_line]
  split
  · next h =>
    obtain ⟨rfl, -⟩ := h
    rw [List.getElem?_append_left (List.getElem?_eq_some_iff.1 hi).1]
    exact hi
  · exact hi

/-- Lines are written after what is there. -/
theorem keeps_lines (a : Arena α) (b : Nat) (ls : List α) : a.Keeps (a.lines b ls) := by
  induction ls generalizing a with
  | nil => exact .refl a
  | cons l ls ih => exact (keeps_line a b l).trans (ih _)

/-- A block is reserved after what is there. -/
theorem keeps_reserve (a : Arena α) (place : Place) (b : Nat) :
    a.Keeps (a.reserve place b).2 := by
  refine ⟨by rw [size_reserve]; exact Nat.le_succ _, fun {id i item} hi => ?_⟩
  rw [body_reserve]
  split
  · next h =>
    obtain ⟨rfl, -⟩ := h
    rw [List.getElem?_append_left (List.getElem?_eq_some_iff.1 hi).1]
    exact hi
  · exact hi

/-! ## Numbers of blocks that exist -/

/-- Every block that stands in a block exists. -/
def Closed (a : Arena α) : Prop :=
  ∀ ⦃id child : Nat⦄ ⦃place : Place⦄, .block place child ∈ a.body id → child < a.size

/-- In a new arena no number is written at all. -/
theorem closed_new : (Arena.new : Arena α).Closed := by
  intro id child place h
  rw [body_new] at h
  exact nomatch h

/-- A line writes no number. -/
theorem Closed.line {a : Arena α} (h : a.Closed) (b : Nat) (l : α) : (a.line b l).Closed := by
  intro id child place hmem
  rw [body_line] at hmem
  rw [size_line]
  split at hmem
  · rcases List.mem_append.1 hmem with hold | hnew
    · exact h hold
    · simp at hnew
  · exact h hmem

/-- Lines write no number. -/
theorem Closed.lines {a : Arena α} (h : a.Closed) (b : Nat) (ls : List α) :
    (a.lines b ls).Closed := by
  induction ls generalizing a with
  | nil => exact h
  | cons l ls ih => exact ih (h.line b l)

/-- The number a reservation writes is the one of the block it opens. -/
theorem Closed.reserve {a : Arena α} (h : a.Closed) (place : Place) (b : Nat) :
    (a.reserve place b).2.Closed := by
  intro id child place' hmem
  rw [body_reserve] at hmem
  rw [size_reserve]
  split at hmem
  · rcases List.mem_append.1 hmem with hold | hnew
    · exact Nat.lt_succ_of_lt (h hold)
    · simp only [List.mem_singleton, Item.block.injEq] at hnew
      omega
  · exact Nat.lt_succ_of_lt (h hmem)

end Arena

end Blueprints
