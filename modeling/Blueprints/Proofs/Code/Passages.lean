import Mathlib.Data.List.Basic
import Mathlib.Logic.Function.Basic
import Blueprints.Proofs.Code.Blocks

/-! # Passages — the text of blocks as a tree

    A passage is a piece of text by its structure: a line, or passages one
    level deeper.  The passages of a block are read off the arena by
    recursion, and their lines are those that writing out with a stack of
    places gives (`render_eq_linesOf`).

    While a block is not finished, what will come at its end is a parameter
    (`tail`).  To write a line is then to put it in front of what comes at
    the end of its block (`passages_line`), and to reserve a block is to put
    what comes in the new block there (`passages_reserve`).  So the text of
    blocks that are filled in any order is computed by equations. -/

namespace Blueprints

/-- A piece of text: a line, or passages one level deeper, in the last form
    after an `else`. -/
inductive Passage (α : Type) where
  | line (line : α)
  | deeper (body : List (Passage α))
  | otherwise (body : List (Passage α))

namespace Passage

variable {α : Type} (text : α → String) (unit : String)

mutual

/-- The lines of a passage at a depth. -/
def lines (depth : Nat) : Passage α → List String
  | .line l => [Arena.indented unit depth (text l)]
  | .deeper body => linesOf (depth + 1) body
  | .otherwise body =>
    match linesOf (depth + 1) body with
    | [] => []
    | first :: more => Arena.indented unit depth Arena.elseLine :: first :: more

/-- The lines of passages one after the other. -/
def linesOf (depth : Nat) : List (Passage α) → List String
  | [] => []
  | p :: rest => lines depth p ++ linesOf depth rest

end

@[simp] theorem linesOf_nil (depth : Nat) : linesOf text unit depth [] = [] := by rw [linesOf]

@[simp] theorem linesOf_cons (depth : Nat) (p : Passage α) (rest : List (Passage α)) :
    linesOf text unit depth (p :: rest)
      = lines text unit depth p ++ linesOf text unit depth rest := by
  rw [linesOf]

/-- The lines of passages in two lists are those of all of them. -/
@[simp] theorem linesOf_append (depth : Nat) (ps ps' : List (Passage α)) :
    linesOf text unit depth (ps ++ ps')
      = linesOf text unit depth ps ++ linesOf text unit depth ps' := by
  induction ps with
  | nil => simp
  | cons p ps ih => simp [ih]

/-- Whether passages have lines is not a matter of their depth. -/
theorem linesOf_eq_nil {depth : Nat} (depth' : Nat) :
    ∀ {ps : List (Passage α)}, linesOf text unit depth ps = [] → linesOf text unit depth' ps = []
  | [], _ => linesOf_nil ..
  | .line l :: rest, h => by
    rw [linesOf_cons, lines] at h
    cases h
  | .deeper body :: rest, h => by
    rw [linesOf_cons, lines, List.append_eq_nil_iff] at h ⊢
    exact ⟨linesOf_eq_nil (depth' + 1) h.1, linesOf_eq_nil depth' h.2⟩
  | .otherwise body :: rest, h => by
    rw [linesOf_cons, lines, List.append_eq_nil_iff] at h ⊢
    obtain ⟨hbody, hrest⟩ := h
    refine ⟨?_, linesOf_eq_nil depth' hrest⟩
    split at hbody
    · next hnone => rw [linesOf_eq_nil (depth' + 1) hnone]
    · cases hbody

end Passage

/-- What a block at a place adds to the text around it. -/
def Place.wrap {α : Type} (place : Place) (body : List (Passage α)) : List (Passage α) :=
  match place with
  | .nested => [.deeper body]
  | .inline => body
  | .otherwise => [.otherwise body]

namespace Arena

variable {α : Type}

/-- Induction from the blocks in a block to the block. -/
theorem block_induction {a : Arena α} {P : Nat → Prop}
    (step : ∀ id, (∀ place child, .block place child ∈ a.body id → P child) → P id) :
    ∀ id, P id := by
  intro id
  induction hk : a.height id using Nat.strongRecOn generalizing id with
  | ind k ih =>
      subst hk
      refine step id fun place child hmem => ih _ ?_ child rfl
      exact @height_lt _ _ _ _ (.block place child) (Array.mem_toList_iff.1 hmem) rfl

/-- The passages of a block, where `tail` tells what comes at the end of each
    block. -/
def passages (a : Arena α) (tail : Nat → List (Passage α)) (id : Nat) : List (Passage α) :=
  ((a.body id).attach.flatMap fun ⟨item, _member⟩ =>
    match _item : item with
    | .line l => [.line l]
    | .block place child => place.wrap (a.passages tail child)) ++ tail id
termination_by a.height id
decreasing_by
  exact @height_lt _ _ _ _ (.block place child) (Array.mem_toList_iff.1 (_item ▸ _member)) rfl

/-- The passages of a member of a block. -/
def passagesAt (a : Arena α) (tail : Nat → List (Passage α)) : Item α → List (Passage α)
  | .line l => [.line l]
  | .block place child => place.wrap (a.passages tail child)

/-- **The passages of a block** are those of its members and then what comes at its
    end. -/
theorem passages_eq (a : Arena α) (tail : Nat → List (Passage α)) (id : Nat) :
    a.passages tail id = (a.body id).flatMap (a.passagesAt tail) ++ tail id := by
  rw [passages]
  congr 1
  conv =>
    rhs
    rw [← List.attach_map_subtype_val (a.body id), List.flatMap_map]
  congr 1
  funext ⟨item, hitem⟩
  cases item with
  | line l => rfl
  | block place child => rfl

/-! ## Unfinished blocks -/

/-- Puts passages in front of what comes at the end of a block. -/
def ahead (tail : Nat → List (Passage α)) (b : Nat) (ps : List (Passage α)) :
    Nat → List (Passage α) :=
  Function.update tail b (ps ++ tail b)

@[simp] theorem ahead_self (tail : Nat → List (Passage α)) (b : Nat) (ps : List (Passage α)) :
    ahead tail b ps b = ps ++ tail b := Function.update_self ..

theorem ahead_of_ne {tail : Nat → List (Passage α)} {b id : Nat} {ps : List (Passage α)}
    (h : id ≠ b) : ahead tail b ps id = tail id := Function.update_of_ne h ..

@[simp] theorem ahead_nil (tail : Nat → List (Passage α)) (b : Nat) : ahead tail b [] = tail := by
  rw [ahead, List.nil_append, Function.update_eq_self]

theorem ahead_ahead (tail : Nat → List (Passage α)) (b : Nat) (ps ps' : List (Passage α)) :
    ahead (ahead tail b ps) b ps' = ahead tail b (ps' ++ ps) := by
  rw [ahead, ahead_self, ahead, Function.update_idem, ahead, List.append_assoc]

/-- What is put ahead in two blocks can be put there in any order. -/
theorem ahead_comm (tail : Nat → List (Passage α)) {b b' : Nat} (hne : b ≠ b')
    (ps ps' : List (Passage α)) :
    ahead (ahead tail b ps) b' ps' = ahead (ahead tail b' ps') b ps := by
  funext id
  by_cases hb : id = b
  · subst hb
    rw [ahead_of_ne hne, ahead_self, ahead_self, ahead_of_ne hne]
  · by_cases hb' : id = b'
    · subst hb'
      rw [ahead_self, ahead_of_ne hb, ahead_of_ne hb, ahead_self]
    · rw [ahead_of_ne hb', ahead_of_ne hb, ahead_of_ne hb, ahead_of_ne hb']

/-- A line stands in front of what comes at the end of its block. -/
theorem passages_line {a : Arena α} {b : Nat} (hb : b < a.size) (l : α)
    (tail : Nat → List (Passage α)) :
    (a.line b l).passages tail = a.passages (ahead tail b [.line l]) := by
  funext id
  induction id using block_induction (a := a.line b l) with
  | step id ih =>
      rw [passages_eq, passages_eq, body_line]
      have hold : ∀ item ∈ a.body id, (a.line b l).passagesAt tail item
          = a.passagesAt (ahead tail b [.line l]) item := by
        intro item hitem
        cases item with
        | line _ => rfl
        | block place child =>
            refine congrArg place.wrap (ih place child ?_)
            obtain ⟨i, hi⟩ := List.mem_iff_getElem?.1 hitem
            exact List.mem_iff_getElem?.2 ⟨i, (keeps_line a b l).body hi⟩
      by_cases hid : id = b
      · subst hid
        rw [if_pos ⟨rfl, hb⟩, List.flatMap_append, List.flatMap_congr hold, ahead_self]
        simp [passagesAt]
      · rw [if_neg (fun h => hid h.1), List.flatMap_congr hold, ahead_of_ne hid]

/-- Lines that are written are put ahead of what comes at the end of their block. -/
theorem passages_lines {a : Arena α} {b : Nat} (hb : b < a.size) (ls : List α)
    (tail : Nat → List (Passage α)) :
    (a.lines b ls).passages tail = a.passages (ahead tail b (ls.map .line)) := by
  induction ls generalizing a with
  | nil => rw [lines_nil, List.map_nil, ahead_nil]
  | cons l ls ih =>
      rw [lines_cons, ih (by rw [size_line]; exact hb), passages_line hb, ahead_ahead]
      rfl

/-- A reserved block stands in front of what comes at the end of the block
    that holds it. -/
theorem passages_reserve {a : Arena α} (closed : a.Closed) {b : Nat} (hb : b < a.size)
    (place : Place) (tail : Nat → List (Passage α)) {id : Nat} (hid : id < a.size) :
    (a.reserve place b).2.passages tail id
      = a.passages (ahead tail b (place.wrap (tail a.size))) id := by
  induction id using block_induction (a := a) with
  | step id ih =>
      rw [passages_eq, passages_eq, body_reserve]
      have hold : ∀ item ∈ a.body id, (a.reserve place b).2.passagesAt tail item
          = a.passagesAt (ahead tail b (place.wrap (tail a.size))) item := by
        intro item hitem
        cases item with
        | line _ => rfl
        | block place' child => exact congrArg place'.wrap (ih place' child hitem (closed hitem))
      have hnew : (a.reserve place b).2.passages tail a.size = tail a.size := by
        rw [passages_eq, body_reserve, if_neg (fun h => absurd h.1 (by omega)),
          body_eq_nil_of_le (Nat.le_refl _)]
        rfl
      by_cases heq : id = b
      · subst heq
        rw [if_pos ⟨rfl, hb⟩, List.flatMap_append, List.flatMap_congr hold, ahead_self]
        simp [passagesAt, hnew]
      · rw [if_neg (fun h => heq h.1), List.flatMap_congr hold, ahead_of_ne heq]

/-- What is read off blocks depends on the tails of existing blocks only. -/
theorem passages_congr {a : Arena α} (closed : a.Closed) {tail tail' : Nat → List (Passage α)}
    (h : ∀ id < a.size, tail id = tail' id) {id : Nat} (hid : id < a.size) :
    a.passages tail id = a.passages tail' id := by
  induction id using block_induction (a := a) with
  | step id ih =>
      rw [passages_eq, passages_eq, h id hid]
      congr 1
      apply List.flatMap_congr
      intro item hitem
      cases item with
      | line l => rfl
      | block place child => exact congrArg place.wrap (ih place child hitem (closed hitem))

/-- A reserved block with text in it, in front of what comes after it. -/
theorem passages_reserve_filled {a : Arena α} (closed : a.Closed) {b : Nat} (hb : b < a.size)
    (place : Place) {tail : Nat → List (Passage α)} (hquiet : tail a.size = [])
    (ps qs : List (Passage α)) {id : Nat} (hid : id < a.size) :
    (a.reserve place b).2.passages (ahead (ahead tail b ps) a.size qs) id
      = a.passages (ahead tail b (place.wrap qs ++ ps)) id := by
  rw [passages_reserve closed hb place _ hid, ahead_self, ahead_of_ne (by omega), hquiet,
    List.append_nil]
  refine passages_congr closed (fun id' hid' => ?_) hid
  rw [ahead_comm _ (by omega), ahead_of_ne (by omega), ahead_ahead]

/-! ## Writing out -/

/-- The passages of a block to which nothing is added. -/
def finished (a : Arena α) (id : Nat) : List (Passage α) := a.passages (fun _ => []) id

/-- The lines of a member of a block to which nothing is added. -/
def linesAt (a : Arena α) (text : α → String) (unit : String) (depth : Nat) (item : Item α) :
    List String :=
  Passage.linesOf text unit depth (a.passagesAt (fun _ => []) item)

section Rendering

variable (a : Arena α) (text : α → String) (unit : String)

/-- The lines of a finished block are those of its members. -/
theorem linesOf_finished (depth id : Nat) :
    Passage.linesOf text unit depth (a.finished id)
      = (a.body id).flatMap (a.linesAt text unit depth) := by
  rw [finished, passages_eq, List.append_nil]
  induction a.body id with
  | nil => simp
  | cons item items ih => simp [ih, linesAt]

@[simp] theorem linesAt_line (depth : Nat) (l : α) :
    a.linesAt text unit depth (.line l) = [indented unit depth (text l)] := by
  simp [linesAt, passagesAt, Passage.lines]

@[simp] theorem linesAt_nested (depth child : Nat) :
    a.linesAt text unit depth (.block .nested child)
      = Passage.linesOf text unit (depth + 1) (a.finished child) := by
  simp [linesAt, passagesAt, Place.wrap, Passage.lines, finished]

@[simp] theorem linesAt_inline (depth child : Nat) :
    a.linesAt text unit depth (.block .inline child)
      = Passage.linesOf text unit depth (a.finished child) := rfl

/-- A block for the other case has an `else` ahead of it, if it has any lines. -/
theorem linesAt_otherwise (depth child : Nat) :
    a.linesAt text unit depth (.block .otherwise child)
      = match Passage.linesOf text unit (depth + 1) (a.finished child) with
        | [] => []
        | first :: more => indented unit depth elseLine :: first :: more := by
  simp only [linesAt, passagesAt, Place.wrap, Passage.linesOf_cons, Passage.linesOf_nil,
    List.append_nil, Passage.lines, finished]

/-- A block at any place has no lines if none is written for it. -/
theorem linesAt_block_eq_nil_iff (depth child : Nat) (place : Place) :
    a.linesAt text unit depth (.block place child) = []
      ↔ Passage.linesOf text unit depth (a.finished child) = [] := by
  cases place with
  | nested =>
      rw [linesAt_nested]
      exact ⟨Passage.linesOf_eq_nil text unit depth, Passage.linesOf_eq_nil text unit (depth + 1)⟩
  | inline => rw [linesAt_inline]
  | otherwise =>
      rw [linesAt_otherwise]
      constructor
      · intro h
        split at h
        · next hbody => exact Passage.linesOf_eq_nil text unit depth hbody
        · exact nomatch h
      · intro h
        rw [Passage.linesOf_eq_nil text unit (depth + 1) h]

/-- Blocks count as empty if no line is written for them. -/
theorem noLines_iff (depth : Nat) (stack : List Nat) :
    a.noLines stack = true
      ↔ ∀ id ∈ stack, Passage.linesOf text unit depth (a.finished id) = [] := by
  induction stack using noLines.induct (a := a) with
  | case1 => simp [noLines]
  | case2 id rest hline =>
      rw [noLines, if_pos hline]
      refine ⟨fun h => absurd h (by simp), fun h => ?_⟩
      obtain ⟨item, hitem, hl⟩ := Array.any_eq_true'.1 hline
      have hnil := h id (by simp)
      rw [linesOf_finished, List.flatMap_eq_nil_iff] at hnil
      have := hnil item (Array.mem_toList_iff.2 hitem)
      cases item with
      | line l => simp at this
      | block place child => exact nomatch hl
  | case3 id rest hline ih =>
      rw [noLines, if_neg hline, ih]
      -- no member of the block is a line, so its lines are those of its children
      have hchildren : (∀ child ∈ a.children id,
            Passage.linesOf text unit depth (a.finished child) = [])
          ↔ Passage.linesOf text unit depth (a.finished id) = [] := by
        rw [linesOf_finished, List.flatMap_eq_nil_iff]
        constructor
        · intro h item hitem
          cases item with
          | line l =>
              exact absurd (Array.any_eq_true'.2 ⟨_, Array.mem_toList_iff.1 hitem, rfl⟩) hline
          | block place child =>
              rw [linesAt_block_eq_nil_iff]
              exact h child (List.mem_filterMap.2 ⟨_, hitem, rfl⟩)
        · intro h child hchild
          obtain ⟨item, hitem, hc⟩ := List.mem_filterMap.1 hchild
          cases item with
          | line l => exact nomatch hc
          | block place child' =>
              obtain rfl := Option.some.inj hc
              exact (a.linesAt_block_eq_nil_iff text unit depth child' place).1 (h _ hitem)
      rw [List.forall_mem_append, List.forall_mem_cons, hchildren]

/-- The lines that are left from a place on. -/
def linesLeft (f : Frame) : List String :=
  ((a.body f.block).drop f.position).flatMap (a.linesAt text unit f.depth)

variable {a} in
/-- What is left of a block is its next member and what is left behind that. -/
theorem linesLeft_of_getElem? {f : Frame} {item : Item α}
    (h : (a.items f.block)[f.position]? = some item) :
    a.linesLeft text unit f = a.linesAt text unit f.depth item ++ a.linesLeft text unit f.next := by
  rw [← Array.getElem?_toList] at h
  obtain ⟨hlt, rfl⟩ := List.getElem?_eq_some_iff.1 h
  show ((a.items f.block).toList.drop f.position).flatMap _ = _
  rw [List.drop_eq_getElem_cons hlt, List.flatMap_cons]
  rfl

/-- Writing out gives, after what was written, the lines that are left from
    the places on the stack. -/
theorem write_eq (stack : List Frame) (written : List String) :
    a.write text unit stack written
      = written.reverse ++ stack.flatMap (a.linesLeft text unit) := by
  induction stack, written using write.induct a text unit with
  | case1 written => rw [write]; simp
  | case2 written f rest hnone ih =>
      rw [write, hnone, ih]
      have hleft : a.linesLeft text unit f = [] := by
        show ((a.items f.block).toList.drop f.position).flatMap _ = []
        rw [List.drop_eq_nil_of_le (by simpa using hnone)]
        rfl
      rw [List.flatMap_cons, hleft, List.nil_append]
  | case3 written f rest l hfound ih =>
      rw [write, hfound]
      dsimp only
      rw [ih, List.flatMap_cons, List.flatMap_cons,
        linesLeft_of_getElem? text unit hfound]
      simp
  | case4 written f rest child hfound ih =>
      rw [write, hfound]
      dsimp only
      rw [ih, List.flatMap_cons, List.flatMap_cons, List.flatMap_cons,
        linesLeft_of_getElem? text unit hfound, linesAt_nested, linesOf_finished]
      simp [linesLeft]
  | case5 written f rest child hfound ih =>
      rw [write, hfound]
      dsimp only
      rw [ih, List.flatMap_cons, List.flatMap_cons, List.flatMap_cons,
        linesLeft_of_getElem? text unit hfound, linesAt_inline, linesOf_finished]
      simp [linesLeft]
  | case6 written f rest child hfound hempty ih =>
      rw [write, hfound]
      dsimp only
      rw [if_pos hempty, ih, List.flatMap_cons, List.flatMap_cons,
        linesLeft_of_getElem? text unit hfound, linesAt_otherwise]
      have hnil := (a.noLines_iff text unit (f.depth + 1) [child]).1 hempty child (by simp)
      rw [hnil]
      rfl
  | case7 written f rest child hfound hempty ih =>
      rw [write, hfound]
      dsimp only
      rw [if_neg hempty, ih, List.flatMap_cons, List.flatMap_cons,
        List.flatMap_cons, linesLeft_of_getElem? text unit hfound, linesAt_otherwise]
      have hsome : Passage.linesOf text unit (f.depth + 1) (a.finished child) ≠ [] := by
        intro hnil
        refine hempty ((a.noLines_iff text unit (f.depth + 1) [child]).2 fun id hid => ?_)
        obtain rfl := List.mem_singleton.1 hid
        exact hnil
      obtain ⟨first, more, hlines⟩ := List.exists_cons_of_ne_nil hsome
      have hchild : a.linesLeft text unit ⟨child, 0, f.depth + 1⟩ = first :: more := by
        rw [← hlines, linesOf_finished]
        rfl
      rw [hlines, hchild]
      simp

/-- **Writing out is reading off.**  The lines of a block are those of its
    passages. -/
theorem render_eq_linesOf (depth id : Nat) :
    a.render text unit depth id = Passage.linesOf text unit depth (a.finished id) := by
  rw [render, write_eq, linesOf_finished]
  simp [linesLeft]

end Rendering

end Arena

end Blueprints
