import Blueprints.Proofs.Code.Blocks

/-! # Places in blocks — what stands before what

    A place is a block and a position in it.  A place stands *before* another
    one if it is earlier in the same block, or stands before the place at
    which the block of the other one is put.  Control passes what stands
    before a place in this sense whenever it comes to the place, so this is
    how the lines of a routine dominate each other.

    Nothing that is written later changes what stands before what
    (`Before.keeps`), and what is written at the end of one block and in new
    blocks adds nothing before the places that exist (`Extends.before`). -/

namespace Blueprints

namespace Arena

variable {α : Type}

/-- Position `j` of block `c` stands before a place. -/
inductive Before (a : Arena α) (c j : Nat) : Nat → Nat → Prop where
  | inside {i : Nat} (h : j < i) : Before a c j c i
  | deeper {p k child i : Nat} {place : Place} (h : Before a c j p k)
      (hput : (a.body p)[k]? = some (.block place child)) : Before a c j child i

/-- A block is `root`, or it is put into a block under `root`. -/
inductive Under (a : Arena α) (root : Nat) : Nat → Prop where
  | refl : Under a root root
  | deeper {p k child : Nat} {place : Place} (h : Under a root p)
      (hput : (a.body p)[k]? = some (.block place child)) : Under a root child

variable {a a' : Arena α} {c j x i root : Nat}

/-- **What stands before a place stays before it.** -/
theorem Before.keeps (h : a.Before c j x i) (hkeeps : a.Keeps a') : a'.Before c j x i := by
  induction h with
  | inside hlt => exact .inside hlt
  | deeper _ hput ih => exact .deeper ih (hkeeps.body hput)

/-- What stands before a place stands before the later ones of the block. -/
theorem Before.mono (h : a.Before c j x i) {i' : Nat} (hle : i ≤ i') : a.Before c j x i' := by
  cases h with
  | inside hlt => exact .inside (Nat.lt_of_lt_of_le hlt hle)
  | deeper hbefore hput => exact .deeper hbefore hput

/-- A block that is under another one stays there. -/
theorem Under.keeps (h : a.Under root x) (hkeeps : a.Keeps a') : a'.Under root x := by
  induction h with
  | refl => exact .refl
  | deeper _ hput ih => exact .deeper ih (hkeeps.body hput)

/-- A block has no larger number than those under it. -/
theorem Under.le (h : a.Under root x) : root ≤ x := by
  induction h with
  | refl => exact Nat.le_refl _
  | deeper _ hput ih =>
      have hlt := lt_of_mem_body (List.mem_of_getElem? hput)
      exact Nat.le_trans ih (Nat.le_of_lt hlt)

/-! ## A line and a block at the end of a block -/

theorem getElem?_body_line {b : Nat} (hb : b < a.size) (l : α) :
    ((a.line b l).body b)[(a.body b).length]? = some (.line l) := by
  rw [body_line, if_pos ⟨rfl, hb⟩]
  simp

theorem length_body_line {b : Nat} (hb : b < a.size) (l : α) :
    ((a.line b l).body b).length = (a.body b).length + 1 := by
  rw [body_line, if_pos ⟨rfl, hb⟩]
  simp

/-- A block that is reserved is the last member of the one it is reserved in. -/
theorem getElem?_body_reserve {b : Nat} (hb : b < a.size) (place : Place) :
    ((a.reserve place b).2.body b)[(a.body b).length]? = some (.block place a.size) := by
  rw [body_reserve, if_pos ⟨rfl, hb⟩]
  simp

/-- A member of a longer list is one of those before, or the new one. -/
theorem getElem?_concat_cases {l : List (Item α)} {item new : Item α} {i : Nat}
    (h : (l ++ [new])[i]? = some item) : l[i]? = some item ∨ (i = l.length ∧ item = new) := by
  rw [List.getElem?_append] at h
  split at h
  · exact Or.inl h
  · obtain ⟨hlt, hitem⟩ := List.getElem?_eq_some_iff.1 h
    rw [List.length_singleton] at hlt
    rw [List.getElem_singleton] at hitem
    exact Or.inr ⟨by omega, hitem.symm⟩

/-- A member of a block with a new line is an old one or the new one. -/
theorem getElem?_line_cases {b : Nat} {l : α} {item : Item α}
    (h : ((a.line b l).body x)[i]? = some item) :
    (a.body x)[i]? = some item ∨ (x = b ∧ i = (a.body b).length ∧ item = .line l) := by
  rw [body_line] at h
  split at h
  · next hb =>
    obtain ⟨rfl, -⟩ := hb
    rcases getElem?_concat_cases h with hold | ⟨hi, hitem⟩
    · exact Or.inl hold
    · exact Or.inr ⟨rfl, hi, hitem⟩
  · exact Or.inl h

/-- A member of a block with a new block is an old one or the new one. -/
theorem getElem?_reserve_cases {b : Nat} {place : Place} {item : Item α}
    (h : ((a.reserve place b).2.body x)[i]? = some item) :
    (a.body x)[i]? = some item
      ∨ (x = b ∧ i = (a.body b).length ∧ item = .block place a.size) := by
  rw [body_reserve] at h
  split at h
  · next hb =>
    obtain ⟨rfl, -⟩ := hb
    rcases getElem?_concat_cases h with hold | ⟨hi, hitem⟩
    · exact Or.inl hold
    · exact Or.inr ⟨rfl, hi, hitem⟩
  · exact Or.inl h

/-! ## Writing into one block -/

/-- The second arena has come from the first by writing into a block and into
    new blocks: every new member stands in one of these, and every block that
    was put is new. -/
structure Extends (b : Nat) (a a' : Arena α) : Prop where
  keeps : a.Keeps a'
  closed : a.Closed → a'.Closed
  new : ∀ {x i : Nat} {item : Item α}, (a'.body x)[i]? = some item →
    (a.body x)[i]? = some item
      ∨ ((x = b ∨ a.size ≤ x) ∧ ∀ {place : Place} {child : Nat}, item = .block place child →
        a.size ≤ child)

section Extending

variable {b : Nat}

theorem Extends.refl (b : Nat) (a : Arena α) : a.Extends b a :=
  ⟨.refl a, id, Or.inl⟩

/-- Extensions can be joined, if the second one goes on in the block of the first or
    in a new one. -/
theorem Extends.trans {a'' : Arena α} {b' : Nat} (h : a.Extends b a') (h' : a'.Extends b' a'')
    (hb' : b' = b ∨ a.size ≤ b') : a.Extends b a'' := by
  refine ⟨h.keeps.trans h'.keeps, fun hclosed => h'.closed (h.closed hclosed), fun hitem => ?_⟩
  rcases h'.new hitem with hold | ⟨hplace, hchild⟩
  · exact h.new hold
  · have hsize := h.keeps.size
    refine Or.inr ⟨by omega, fun heq => Nat.le_trans hsize (hchild heq)⟩

/-- To write a line extends its block. -/
theorem extends_line (a : Arena α) (b : Nat) (l : α) : a.Extends b (a.line b l) := by
  refine ⟨keeps_line a b l, fun hclosed => hclosed.line b l, fun hitem => ?_⟩
  rcases getElem?_line_cases hitem with hold | ⟨rfl, -, rfl⟩
  · exact Or.inl hold
  · exact Or.inr ⟨Or.inl rfl, nofun⟩

theorem extends_lines (a : Arena α) (b : Nat) (ls : List α) : a.Extends b (a.lines b ls) := by
  induction ls generalizing a with
  | nil => exact .refl b a
  | cons l rest ih => exact (extends_line a b l).trans (ih (a.line b l)) (Or.inl rfl)

/-- To reserve a block extends the one it is reserved in. -/
theorem extends_reserve (a : Arena α) (place : Place) (b : Nat) :
    a.Extends b (a.reserve place b).2 := by
  refine ⟨keeps_reserve a place b, fun hclosed => hclosed.reserve place b, fun hitem => ?_⟩
  rcases getElem?_reserve_cases hitem with hold | ⟨rfl, -, rfl⟩
  · exact Or.inl hold
  · refine Or.inr ⟨Or.inl rfl, fun heq => ?_⟩
    obtain ⟨-, rfl⟩ := Item.block.inj heq
    exact Nat.le_refl _

/-- The other blocks stay as they are. -/
theorem Extends.body_of_ne (h : a.Extends b a') (hx : x < a.size) (hne : x ≠ b) :
    a'.body x = a.body x := by
  refine List.ext_getElem? fun i => ?_
  cases hitem : (a'.body x)[i]? with
  | some item =>
      rcases h.new hitem with hold | ⟨hplace, -⟩
      · exact hold.symm
      · omega
  | none =>
      cases hold : (a.body x)[i]? with
      | none => rfl
      | some item =>
          rw [h.keeps.body hold] at hitem
          exact nomatch hitem

/-- Nothing new stands before a place that exists. -/
theorem Extends.before (h : a.Extends b a') (hbefore : a'.Before c j x i) (hx : x < a.size)
    (hi : i ≤ (a.body x).length) : a.Before c j x i ∧ j < (a.body c).length := by
  induction hbefore with
  | inside hlt => exact ⟨.inside hlt, Nat.lt_of_lt_of_le hlt hi⟩
  | deeper _ hput ih =>
      rcases h.new hput with hold | ⟨-, hchild⟩
      · obtain ⟨hlt, -⟩ := List.getElem?_eq_some_iff.1 hold
        obtain ⟨hbefore, hj⟩ := ih (lt_size_of_getElem? hold) (Nat.le_of_lt hlt)
        exact ⟨.deeper hbefore hold, hj⟩
      · have := hchild rfl
        omega

/-- An extension puts no block that was there under another one. -/
theorem Extends.under (h : a.Extends b a') (hunder : a'.Under root x) (hx : x < a.size) :
    a.Under root x := by
  induction hunder with
  | refl => exact .refl
  | deeper _ hput ih =>
      rcases h.new hput with hold | ⟨-, hchild⟩
      · exact .deeper (ih (lt_size_of_getElem? hold)) hold
      · have := hchild rfl
        omega

/-- Writing into a block that is not under `root` puts nothing under it. -/
theorem Extends.under_of_not_under (h : a.Extends b a') (closed : a.Closed) (hroot : root < a.size)
    (hb : ¬a.Under root b) (hunder : a'.Under root x) : a.Under root x ∧ x < a.size := by
  induction hunder with
  | refl => exact ⟨.refl, hroot⟩
  | deeper _ hput ih =>
      obtain ⟨hp, hlt⟩ := ih
      rcases h.new hput with hold | ⟨hplace, -⟩
      · exact ⟨.deeper hp hold, closed (List.mem_of_getElem? hold)⟩
      · rcases hplace with rfl | hge
        · exact absurd hp hb
        · omega

/-- What is under a block stays as it is while another one is extended. -/
theorem Extends.body_of_not_under (h : a.Extends b a') (closed : a.Closed) (hroot : root < a.size)
    (hb : ¬a.Under root b) (hunder : a'.Under root x) : a'.body x = a.body x := by
  obtain ⟨hold, hx⟩ := h.under_of_not_under closed hroot hb hunder
  exact h.body_of_ne hx fun heq => hb (heq ▸ hold)

end Extending

end Arena

end Blueprints
