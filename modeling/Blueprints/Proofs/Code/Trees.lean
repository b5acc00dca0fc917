import Blueprints.Proofs.Code.Contents

/-! # Blocks as trees

    Blocks are made by a few operations in any order: a block is allocated, a
    line is written at the end of a block, and the newest block is put at the end
    of another one (`Built`).  To reserve a block is to do the first and the last
    of these at once (`reserve_eq_hold`).

    Whatever the order, each block is held at one position at most, and by a
    block that is older (`Built.isTree`).  So two blocks have no block under both
    of them unless one of them is under the other (`Under.comparable`). -/

namespace Blueprints.Arena

variable {α : Type} {a : Arena α}

/-! ## Operations -/

/-- No blocks. -/
def empty : Arena α where
  blocks := #[]
  forward := by
    intro id items h
    simp at h

/-- Adds a block that is not held by any other one. -/
def alloc (a : Arena α) : Arena α where
  blocks := a.blocks.push #[]
  forward := by
    intro id items h item hitem
    rw [Array.getElem?_push] at h
    split at h
    · cases h
      simp at hitem
    · exact a.forward id items h item hitem

/-- Puts the newest block at the end of an older one. -/
def hold (a : Arena α) (place : Place) (b : Nat) (hb : b + 1 < a.size) : Arena α where
  blocks := a.blocks.modify b (·.push (.block place (a.size - 1)))
  forward := forward_push a.forward fun child hchild _ => by
    obtain rfl : a.size - 1 = child := Option.some.inj hchild
    omega

@[simp] theorem size_alloc (a : Arena α) : a.alloc.size = a.size + 1 := Array.size_push ..

@[simp] theorem body_alloc (a : Arena α) (id : Nat) : a.alloc.body id = a.body id := by
  show ((a.blocks.push #[]).getD id #[]).toList = (a.blocks.getD id #[]).toList
  rw [Array.getD_eq_getD_getElem?, Array.getD_eq_getD_getElem?, Array.getElem?_push]
  by_cases hid : id = a.blocks.size
  · rw [if_pos hid, hid, Array.getElem?_size]
    rfl
  · rw [if_neg hid]

@[simp] theorem size_hold (place : Place) {b : Nat} (hb : b + 1 < a.size) :
    (a.hold place b hb).size = a.size := Array.size_modify

/-- The newest block comes at the end of the one that holds it. -/
theorem body_hold (place : Place) {b : Nat} (hb : b + 1 < a.size) (id : Nat) :
    (a.hold place b hb).body id
      = if id = b then a.body b ++ [.block place (a.size - 1)] else a.body id := by
  refine (getD_modify_push a.blocks b id (.block place (a.size - 1))).trans ?_
  have hsize : b < a.blocks.size := Nat.lt_of_succ_lt hb
  simp only [hsize, and_true]
  rfl

/-- A block is reserved by allocating it and putting it where it is held. -/
theorem reserve_eq_hold (place : Place) {b : Nat} (hb : b < a.size) :
    (a.reserve place b).2 = a.alloc.hold place b (by rw [size_alloc]; omega) := by
  have hblocks : (a.blocks.modify b (·.push (.block place a.blocks.size))).push #[]
      = (a.blocks.push #[]).modify b (·.push (.block place (a.alloc.size - 1))) := by
    have hb' : b < a.blocks.size := hb
    rw [size_alloc]
    apply Array.ext_getElem?
    intro i
    rw [Array.getElem?_push, Array.getElem?_modify, Array.getElem?_modify, Array.getElem?_push,
      Array.size_modify]
    by_cases hi : i = a.blocks.size
    · rw [if_pos hi, if_neg (by omega), if_pos hi]
    · rw [if_neg hi, if_neg hi]
      rfl
  exact Arena.mk.injEq .. |>.mpr hblocks

/-- Blocks that are made by these operations, in any order.  Only a block that
    is not held yet is put somewhere. -/
inductive Built : Arena α → Prop where
  | empty : Built empty
  | alloc {a : Arena α} (h : Built a) : Built a.alloc
  | line {a : Arena α} (h : Built a) (b : Nat) (l : α) : Built (a.line b l)
  | hold {a : Arena α} (h : Built a) (place : Place) {b : Nat} (hb : b + 1 < a.size)
      (hfree : ∀ id place', .block place' (a.size - 1) ∉ a.body id) : Built (a.hold place b hb)

theorem built_new : (new : Arena α).Built := .alloc .empty

/-! ## What is built is a tree -/

/-- Every block that is held exists, and is held at one position. -/
structure IsTree (a : Arena α) : Prop where
  closed : a.Closed
  sole : ∀ {p q i j child : Nat} {place place' : Place},
    (a.body p)[i]? = some (.block place child) → (a.body q)[j]? = some (.block place' child) →
      p = q ∧ i = j

theorem isTree_empty : (empty : Arena α).IsTree where
  closed id child place h := by cases h
  sole h := by cases h

/-- A block that nothing holds yet leaves a tree. -/
theorem IsTree.alloc (h : a.IsTree) : a.alloc.IsTree where
  closed id child place hmem := by
    rw [body_alloc] at hmem
    rw [size_alloc]
    exact Nat.lt_succ_of_lt (h.closed hmem)
  sole hput hput' := by
    rw [body_alloc] at hput hput'
    exact h.sole hput hput'

/-- A line leaves a tree. -/
theorem IsTree.line (h : a.IsTree) (b : Nat) (l : α) : (a.line b l).IsTree where
  closed := h.closed.line b l
  sole hput hput' := by
    -- the new member is a line, so both are old
    rcases getElem?_line_cases hput with hold | ⟨-, -, hnew⟩
    · rcases getElem?_line_cases hput' with hold' | ⟨-, -, hnew⟩
      · exact h.sole hold hold'
      · cases hnew
    · cases hnew

/-- A member of a block that holds a new one is an old one or the new one. -/
theorem getElem?_hold_cases {place : Place} {b x i : Nat} {hb : b + 1 < a.size} {item : Item α}
    (h : ((a.hold place b hb).body x)[i]? = some item) :
    (a.body x)[i]? = some item
      ∨ (x = b ∧ i = (a.body b).length ∧ item = .block place (a.size - 1)) := by
  rw [body_hold] at h
  split at h
  · next hx =>
    subst hx
    rcases getElem?_concat_cases h with hold | ⟨hi, hitem⟩
    · exact Or.inl hold
    · exact Or.inr ⟨rfl, hi, hitem⟩
  · exact Or.inl h

/-- **A free block may be held once.** -/
theorem IsTree.hold (h : a.IsTree) (place : Place) {b : Nat} (hb : b + 1 < a.size)
    (hfree : ∀ id place', .block place' (a.size - 1) ∉ a.body id) :
    (a.hold place b hb).IsTree where
  closed id child place' hmem := by
    obtain ⟨i, hput⟩ := List.mem_iff_getElem?.1 hmem
    rw [size_hold]
    rcases getElem?_hold_cases hput with hold | ⟨-, -, hnew⟩
    · exact h.closed (List.mem_of_getElem? hold)
    · obtain ⟨-, rfl⟩ := Item.block.inj hnew
      omega
  sole hput hput' := by
    rcases getElem?_hold_cases hput with hold | ⟨rfl, rfl, hnew⟩
    · rcases getElem?_hold_cases hput' with hold' | ⟨-, -, hnew⟩
      · exact h.sole hold hold'
      · obtain ⟨-, rfl⟩ := Item.block.inj hnew
        exact absurd (List.mem_of_getElem? hold) (hfree _ _)
    · obtain ⟨-, rfl⟩ := Item.block.inj hnew
      rcases getElem?_hold_cases hput' with hold' | ⟨rfl, rfl, -⟩
      · exact absurd (List.mem_of_getElem? hold') (hfree _ _)
      · exact ⟨rfl, rfl⟩

/-- **What is built is a tree.** -/
theorem Built.isTree (h : a.Built) : a.IsTree := by
  induction h with
  | empty => exact isTree_empty
  | alloc _ ih => exact ih.alloc
  | line _ b l ih => exact ih.line b l
  | hold _ place hb hfree ih => exact ih.hold place hb hfree

/-- To reserve a block is built of two operations. -/
theorem Built.reserve (h : a.Built) (place : Place) {b : Nat} (hb : b < a.size) :
    (a.reserve place b).2.Built := by
  rw [reserve_eq_hold place hb]
  refine .hold h.alloc place _ fun id place' hmem => ?_
  rw [body_alloc, size_alloc, Nat.add_sub_cancel] at hmem
  exact absurd (h.isTree.closed hmem) (Nat.lt_irrefl _)

/-! ## Blocks under blocks -/

/-- Going from blocks to those that they hold comes to an end. -/
theorem wellFounded_holds (a : Arena α) :
    WellFounded fun child block => ∃ place, .block place child ∈ a.body block := by
  refine Subrelation.wf ?_ (measure a.height).wf
  rintro child block ⟨place, hmem⟩
  exact @height_lt _ _ _ _ (.block place child) (Array.mem_toList_iff.1 hmem) rfl

/-- Of two blocks with a block under both, one is under the other. -/
theorem Under.comparable (tree : a.IsTree) {x y z : Nat} (hx : a.Under x z) (hy : a.Under y z) :
    a.Under x y ∨ a.Under y x := by
  induction hx with
  | refl => exact Or.inr hy
  | deeper hp hput ih =>
      cases hy with
      | refl => exact Or.inl (.deeper hp hput)
      | deeper hq hput' =>
          obtain ⟨rfl, -⟩ := tree.sole hput hput'
          exact ih hq

/-- A block does not stand under those that it holds. -/
theorem not_under_of_mem {block child : Nat} {place : Place}
    (h : .block place child ∈ a.body block) : ¬ a.Under child block :=
  fun hunder => Nat.not_lt.2 hunder.le (lt_of_mem_body h)

/-- Two members of a block hold different blocks, with no block under both. -/
theorem IsTree.eq_of_under (tree : a.IsTree) {block i j c d x : Nat} {place place' : Place}
    (hc : (a.body block)[i]? = some (.block place c))
    (hd : (a.body block)[j]? = some (.block place' d)) (hx : a.Under c x) (hx' : a.Under d x) :
    i = j := by
  -- the lower one of the two is held by a block under the other one, but also by `block`
  have hbelow : ∀ {i j c d : Nat} {place place' : Place},
      (a.body block)[i]? = some (.block place c) → (a.body block)[j]? = some (.block place' d) →
        a.Under c d → i = j := by
    intro i j c d place place' hc hd h
    cases h with
    | refl => exact (tree.sole hc hd).2
    | deeper hp hput =>
        obtain ⟨rfl, -⟩ := tree.sole hput hd
        exact absurd hp (not_under_of_mem (List.mem_of_getElem? hc))
  rcases hx.comparable tree hx' with h | h
  · exact hbelow hc hd h
  · exact (hbelow hd hc h).symm

end Blueprints.Arena
