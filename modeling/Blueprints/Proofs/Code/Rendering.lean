import Mathlib.Data.List.Nodup
import Mathlib.Logic.Relation
import Blueprints.Proofs.Code.Trees

/-! # Rendering

    The text of a block is defined here by recursion from the block to those
    that it holds, with the place of each line (`inOrder`).  Writing out with a
    stack of places gives just this text (`render_eq_inOrder`).  In a tree, each
    line under a block stands in the text of the block once
    (`IsTree.count_places`).

    Blocks are filled in any order.  What is still to come at the end of each
    block is part of a *draft*, and a step writes a piece of it wherever it likes
    (`Draft.Step`).  All ways to the end give the same text
    (`Draft.finished_of_leads`), and whatever is made by writing lines and
    reserving blocks is the end of such a way (`Filled.leads`). -/

namespace Blueprints

/-- A line of the text of a block: a line with its block, its position there and
    its depth, or a line that leads on to what happens otherwise. -/
inductive Row (α : Type) where
  | line (block position depth : Nat) (line : α)
  | lead (depth : Nat)

namespace Row

variable {α : Type}

/-- The line as it is written. -/
def written (text : α → String) (unit : String) : Row α → String
  | .line _ _ depth l => Arena.indented unit depth (text l)
  | .lead depth => Arena.indented unit depth Arena.elseLine

/-- The block and the position of a line. -/
def place? : Row α → Option (Nat × Nat)
  | .line block position _ _ => some (block, position)
  | .lead _ => none

end Row

namespace Place

variable {α : Type}

/-- The depth of a block at a place, from that of the block that holds it. -/
def depthIn (depth : Nat) : Place → Nat
  | .nested | .otherwise => depth + 1
  | .inline => depth

/-- What leads on to the text of a block at a place, and the text: what happens
    otherwise is led on to if it has lines. -/
def introduce (depth : Nat) : Place → List (Row α) → List (Row α)
  | .otherwise, first :: more => .lead depth :: first :: more
  | _, rows => rows

/-- What leads on to a block has no place of its own. -/
theorem filterMap_introduce (depth : Nat) (place : Place) (rows : List (Row α)) :
    (place.introduce depth rows).filterMap Row.place? = rows.filterMap Row.place? := by
  cases place with
  | nested => rfl
  | inline => rfl
  | otherwise =>
      cases rows with
      | nil => rfl
      | cons first more => rfl

/-- The lines of a block are among the rows with what leads on to them. -/
theorem mem_introduce_iff {depth : Nat} {place : Place} {rows : List (Row α)}
    {block position depth' : Nat} {l : α} :
    .line block position depth' l ∈ place.introduce depth rows
      ↔ .line block position depth' l ∈ rows := by
  cases place with
  | nested => rfl
  | inline => rfl
  | otherwise =>
      cases rows with
      | nil => rfl
      | cons first more =>
          refine ⟨fun h => ?_, List.mem_cons_of_mem _⟩
          rcases List.mem_cons.1 h with heq | hmem
          · cases heq
          · exact hmem

end Place

namespace Arena

variable {α : Type} {a : Arena α}

/-! ## The text in order -/

/-- The text of a block, from a depth on: its lines at that depth, and at their
    positions the texts of the blocks that it holds, each at the depth of its
    place. -/
def inOrder (a : Arena α) (depth id : Nat) : List (Row α) :=
  (a.body id).zipIdx.attach.flatMap fun ⟨(item, i), _member⟩ =>
    match _item : item with
    | .line l => [.line id i depth l]
    | .block place child => place.introduce depth (a.inOrder (place.depthIn depth) child)
termination_by a.height id
decreasing_by
  have hmem := List.fst_mem_of_mem_zipIdx _member
  subst _item
  exact height_lt (Array.mem_toList_iff.1 hmem) rfl

/-- The text of a member of a block. -/
def rowsAt (a : Arena α) (depth id : Nat) : Item α × Nat → List (Row α)
  | (.line l, i) => [.line id i depth l]
  | (.block place child, _) => place.introduce depth (a.inOrder (place.depthIn depth) child)

/-- **The text of a block** is that of its members, one after the other. -/
theorem inOrder_eq (a : Arena α) (depth id : Nat) :
    a.inOrder depth id = (a.body id).zipIdx.flatMap (a.rowsAt depth id) := by
  rw [inOrder]
  conv =>
    rhs
    rw [← List.attach_map_subtype_val (a.body id).zipIdx, List.flatMap_map]
  congr 1
  funext ⟨(item, i), hitem⟩
  cases item with
  | line l => rfl
  | block place child => rfl

section Writing

variable (text : α → String) (unit : String)

/-- The text of a member is written as the lines of the member. -/
theorem map_rowsAt {depth id i : Nat} {item : Item α}
    (hchild : ∀ place child, item = .block place child → ∀ depth,
      (a.inOrder depth child).map (Row.written text unit)
        = Passage.linesOf text unit depth (a.finished child)) :
    (a.rowsAt depth id (item, i)).map (Row.written text unit)
      = a.linesAt text unit depth item := by
  cases item with
  | line l =>
      rw [linesAt_line]
      rfl
  | block place child =>
      have h := hchild place child rfl
      cases place with
      | nested =>
          rw [linesAt_nested]
          exact h (depth + 1)
      | inline => exact h depth
      | otherwise =>
          rw [linesAt_otherwise, ← h (depth + 1)]
          show ((Place.otherwise.introduce depth (a.inOrder (depth + 1) child)).map _) = _
          cases a.inOrder (depth + 1) child with
          | nil => rfl
          | cons first more => rfl

/-- **Writing out gives the text in order.** -/
theorem render_eq_inOrder (a : Arena α) (depth id : Nat) :
    a.render text unit depth id = (a.inOrder depth id).map (Row.written text unit) := by
  rw [render_eq_linesOf]
  induction id using block_induction (a := a) generalizing depth with
  | step id ih =>
      rw [linesOf_finished, inOrder_eq, List.map_flatMap]
      conv =>
        lhs
        rw [← List.zipIdx_map_fst 0 (a.body id), List.flatMap_map]
      apply List.flatMap_congr
      rintro ⟨item, i⟩ hmem
      refine (map_rowsAt text unit fun place child hitem depth => ?_).symm
      subst hitem
      exact (ih place child (List.fst_mem_of_mem_zipIdx hmem) depth).symm

/-- A block counts as empty exactly if nothing is written out for it. -/
theorem isEmpty_iff_render (a : Arena α) (depth id : Nat) :
    a.isEmpty id = true ↔ a.render text unit depth id = [] := by
  rw [isEmpty, noLines_iff a text unit depth, List.forall_mem_singleton, render_eq_linesOf]

end Writing

/-! ## Each line once -/

/-- The lines of the text are those that stand under the block. -/
theorem mem_inOrder_iff {depth id x i : Nat} {l : α} :
    (∃ depth', .line x i depth' l ∈ a.inOrder depth id)
      ↔ a.Under id x ∧ (a.body x)[i]? = some (.line l) := by
  induction id using block_induction (a := a) generalizing depth with
  | step id ih =>
      rw [inOrder_eq, under_iff]
      constructor
      · rintro ⟨depth', hmem⟩
        obtain ⟨⟨item, k⟩, hk, hrow⟩ := List.mem_flatMap.1 hmem
        have hitem := List.mk_mem_zipIdx_iff_getElem?.1 hk
        cases item with
        | line l' =>
            cases List.mem_singleton.1 hrow
            exact ⟨Or.inl rfl, hitem⟩
        | block place child =>
            have hput := List.mem_of_getElem? hitem
            obtain ⟨hunder, hline⟩ :=
              (ih place child hput).1 ⟨depth', Place.mem_introduce_iff.1 hrow⟩
            exact ⟨Or.inr ⟨place, child, hput, hunder⟩, hline⟩
      · rintro ⟨rfl | ⟨place, child, hput, hunder⟩, hline⟩
        · exact ⟨depth, List.mem_flatMap.2 ⟨_, List.mk_mem_zipIdx_iff_getElem?.2 hline,
            List.mem_singleton_self _⟩⟩
        · obtain ⟨k, hk⟩ := List.mem_iff_getElem?.1 hput
          obtain ⟨depth', hmem⟩ :=
            (@ih place child hput (place.depthIn depth)).2 ⟨hunder, hline⟩
          exact ⟨depth', List.mem_flatMap.2 ⟨_, List.mk_mem_zipIdx_iff_getElem?.2 hk,
            Place.mem_introduce_iff.2 hmem⟩⟩

/-- The places of the lines in the text of a block. -/
def places (a : Arena α) (depth id : Nat) : List (Nat × Nat) :=
  (a.inOrder depth id).filterMap Row.place?

/-- **The places in the text of a block** are those of the lines in it and under
    it. -/
theorem mem_places_iff {depth id x i : Nat} :
    (x, i) ∈ a.places depth id ↔ a.Under id x ∧ ∃ l, (a.body x)[i]? = some (.line l) := by
  rw [places, List.mem_filterMap]
  constructor
  · rintro ⟨row, hrow, hplace⟩
    cases row with
    | lead _ => cases hplace
    | line block position depth' l =>
        cases hplace
        obtain ⟨hunder, hline⟩ := mem_inOrder_iff.1 ⟨depth', hrow⟩
        exact ⟨hunder, l, hline⟩
  · rintro ⟨hunder, l, hline⟩
    obtain ⟨depth', hmem⟩ := mem_inOrder_iff.2 ⟨hunder, hline⟩
    exact ⟨_, hmem, rfl⟩

/-- The places of the lines in the text of a member of a block. -/
def placesAt (a : Arena α) (depth id : Nat) : Item α × Nat → List (Nat × Nat)
  | (.line _, i) => [(id, i)]
  | (.block place child, _) => a.places (place.depthIn depth) child

/-- The places of a block are those of its members. -/
theorem places_eq (a : Arena α) (depth id : Nat) :
    a.places depth id = (a.body id).zipIdx.flatMap (a.placesAt depth id) := by
  rw [places, inOrder_eq, List.filterMap_flatMap]
  apply List.flatMap_congr
  rintro ⟨item, i⟩ -
  cases item with
  | line l => rfl
  | block place child => exact Place.filterMap_introduce ..

/-- Two members of a block have no place in common. -/
theorem IsTree.eq_of_mem_placesAt (tree : a.IsTree) {depth id i j : Nat} {item item' : Item α}
    (hitem : (a.body id)[i]? = some item) (hitem' : (a.body id)[j]? = some item')
    {place : Nat × Nat} (hplace : place ∈ a.placesAt depth id (item, i))
    (hplace' : place ∈ a.placesAt depth id (item', j)) : i = j := by
  obtain ⟨x, k⟩ := place
  cases item with
  | line l =>
      cases List.mem_singleton.1 hplace
      cases item' with
      | line l' => exact (Prod.mk.inj (List.mem_singleton.1 hplace')).2
      | block place child =>
          exact absurd (mem_places_iff.1 hplace').1 (not_under_of_mem (List.mem_of_getElem? hitem'))
  | block place child =>
      have hunder := (mem_places_iff.1 hplace).1
      cases item' with
      | line l' =>
          cases List.mem_singleton.1 hplace'
          exact absurd hunder (not_under_of_mem (List.mem_of_getElem? hitem))
      | block place' child' =>
          exact tree.eq_of_under hitem hitem' hunder (mem_places_iff.1 hplace').1

/-- **In a tree no place comes twice.** By recursion from a block to those in it:
    two of them have nothing in common. -/
theorem IsTree.nodup_places (tree : a.IsTree) (depth id : Nat) : (a.places depth id).Nodup := by
  induction id using block_induction (a := a) generalizing depth with
  | step id ih =>
      rw [places_eq, List.nodup_flatMap]
      constructor
      · rintro ⟨item, i⟩ hmem
        cases item with
        | line l => exact List.nodup_singleton _
        | block place child => exact ih place child (List.fst_mem_of_mem_zipIdx hmem) _
      · have hindices : (a.body id).zipIdx.Nodup := by
          refine List.Nodup.of_map Prod.snd ?_
          rw [List.zipIdx_map_snd]
          exact List.nodup_range'
        refine hindices.pairwise_of_forall_ne ?_
        rintro ⟨item, i⟩ hi ⟨item', j⟩ hj hne place hplace hplace'
        have hitem := List.mk_mem_zipIdx_iff_getElem?.1 hi
        have hitem' := List.mk_mem_zipIdx_iff_getElem?.1 hj
        obtain rfl := tree.eq_of_mem_placesAt hitem hitem' hplace hplace'
        rw [hitem] at hitem'
        cases hitem'
        exact hne rfl

/-- **Each line under a block stands once in the text of the block.** -/
theorem IsTree.count_places (tree : a.IsTree) {depth id x i : Nat} {l : α}
    (hunder : a.Under id x) (hline : (a.body x)[i]? = some (.line l)) :
    (a.places depth id).count (x, i) = 1 :=
  List.count_eq_one_of_mem (tree.nodup_places depth id) (mem_places_iff.2 ⟨hunder, l, hline⟩)

/-! ## The order of filling -/

/-- Blocks, and what is still to come at the end of each. -/
structure Draft (α : Type) where
  blocks : Arena α
  rest : Nat → List (Passage α)

namespace Draft

/-- A text that is still to come, and nothing else. -/
def ofText (ps : List (Passage α)) : Draft α := ⟨new, ahead (fun _ => []) root ps⟩

/-- Blocks to which nothing is to come. -/
def done (a : Arena α) : Draft α := ⟨a, fun _ => []⟩

/-- A step takes any block with something to come.  It writes the line that
    comes first there, or reserves a block for the piece that comes first, which
    is then to come in the new block. -/
inductive Step : Draft α → Draft α → Prop where
  | line {a : Arena α} {b : Nat} (hb : b < a.size) (l : α) (rest : Nat → List (Passage α)) :
      Step ⟨a, ahead rest b [.line l]⟩ ⟨a.line b l, rest⟩
  | reserve {a : Arena α} {b : Nat} (hb : b < a.size) (place : Place) (ps : List (Passage α))
      {rest : Nat → List (Passage α)} (hnew : rest a.size = []) :
      Step ⟨a, ahead rest b (place.wrap ps)⟩ ⟨(a.reserve place b).2, ahead rest a.size ps⟩

/-- The text of a block when everything is written that is to come. -/
def text (d : Draft α) (id : Nat) : List (Passage α) := d.blocks.passages d.rest id

/-- A step changes nothing in the text of the blocks. -/
theorem Step.text_eq {d d' : Draft α} (h : Step d d') (closed : d.blocks.Closed) :
    d.blocks.size ≤ d'.blocks.size ∧ d'.blocks.Closed
      ∧ ∀ id < d.blocks.size, d'.text id = d.text id := by
  cases h with
  | @line a b hb l rest =>
      refine ⟨Nat.le_of_eq (size_line a b l).symm, closed.line b l, fun id _ => ?_⟩
      exact congrFun (passages_line hb l rest) id
  | @reserve a b hb place ps rest hnew =>
      refine ⟨(keeps_reserve a place b).size, closed.reserve place b, fun id hid => ?_⟩
      have htext := passages_reserve_filled closed hb place hnew [] ps hid
      rwa [ahead_nil, List.append_nil] at htext

/-- Steps one after the other change nothing either. -/
theorem text_of_leads {d d' : Draft α} (h : Relation.ReflTransGen Step d d')
    (closed : d.blocks.Closed) :
    d.blocks.size ≤ d'.blocks.size ∧ d'.blocks.Closed
      ∧ ∀ id < d.blocks.size, d'.text id = d.text id := by
  induction h with
  | refl => exact ⟨Nat.le_refl _, closed, fun _ _ => rfl⟩
  | tail _ hstep ih =>
      obtain ⟨hsize, hclosed, htext⟩ := ih
      obtain ⟨hsize', hclosed', htext'⟩ := hstep.text_eq hclosed
      refine ⟨Nat.le_trans hsize hsize', hclosed', fun id hid => ?_⟩
      rw [htext' id (Nat.lt_of_lt_of_le hid hsize), htext id hid]

/-- **In whatever order blocks are filled, they have the text that was to
    come.** -/
theorem finished_of_leads {ps : List (Passage α)} {a : Arena α}
    (h : Relation.ReflTransGen Step (ofText ps) (done a)) : a.finished root = ps := by
  obtain ⟨-, -, htext⟩ := text_of_leads h closed_new
  refine (htext root Nat.one_pos).trans ?_
  show (new : Arena α).passages (ahead (fun _ => []) root ps) root = ps
  rw [passages_eq, body_new, ahead_self, List.append_nil]
  rfl

end Draft

/-- Whatever is still to come in blocks that exist, they are what became of a
    text by steps. -/
def Filled (a : Arena α) : Prop :=
  ∀ rest : Nat → List (Passage α), (∀ id, a.size ≤ id → rest id = []) →
    ∃ ps, Relation.ReflTransGen Draft.Step (.ofText ps) ⟨a, rest⟩

/-- A new arena is what became of no text. -/
theorem filled_new : (new : Arena α).Filled := by
  intro rest hquiet
  refine ⟨rest root, ?_⟩
  have hrest : ahead (fun _ => []) root (rest root) = rest := by
    funext id
    by_cases hid : id = root
    · rw [hid, ahead_self, List.append_nil]
    · rw [ahead_of_ne hid, hquiet id (Nat.one_le_iff_ne_zero.2 hid)]
  rw [Draft.ofText, hrest]

/-- A line that is written was the next one of a text to come. -/
theorem Filled.line (h : a.Filled) {b : Nat} (hb : b < a.size) (l : α) : (a.line b l).Filled := by
  intro rest hquiet
  rw [size_line] at hquiet
  obtain ⟨ps, hleads⟩ := h (ahead rest b [.line l]) fun id hid => by
    rw [ahead_of_ne (by omega), hquiet id hid]
  exact ⟨ps, hleads.tail (.line hb l rest)⟩

/-- A block that is reserved was the next one of a text to come. -/
theorem Filled.reserve (h : a.Filled) (place : Place) {b : Nat} (hb : b < a.size) :
    (a.reserve place b).2.Filled := by
  intro rest hquiet
  rw [size_reserve] at hquiet
  -- what is to come in the new block came in the one that holds it before
  let before := Function.update rest a.size []
  have hnew : before a.size = [] := Function.update_self ..
  have hrest : ahead before a.size (rest a.size) = rest := by
    rw [ahead, hnew, List.append_nil, Function.update_idem, Function.update_eq_self]
  obtain ⟨ps, hleads⟩ := h (ahead before b (place.wrap (rest a.size))) fun id hid => by
    rw [ahead_of_ne (by omega)]
    rcases Nat.eq_or_lt_of_le hid with rfl | hlt
    · exact hnew
    · exact (Function.update_of_ne (by omega) ..).trans (hquiet id hlt)
  have hstep := Draft.Step.reserve hb place (rest a.size) hnew
  rw [hrest] at hstep
  exact ⟨ps, hleads.tail hstep⟩

/-- Blocks to which nothing is to come are what became of their own text. -/
theorem Filled.leads (h : a.Filled) :
    Relation.ReflTransGen Draft.Step (.ofText (a.finished root)) (.done a) := by
  obtain ⟨ps, hleads⟩ := h (fun _ => []) fun _ _ => rfl
  rwa [Draft.finished_of_leads hleads]

end Arena

end Blueprints
