import Blueprints.Proofs.Code.Passages
import Blueprints.Proofs.Code.Places

/-! # What is written out

    The text of a block has the lines of all blocks under it, each of them
    indented (`exists_mem_render`).  It has nothing else, but for the lines that
    lead on to a block which stands in for another one (`shows_of_mem_render`).
    Where all blocks stand under the outermost one (`Rooted`), no line is left
    out. -/

namespace Blueprints.Arena

variable {α : Type} {a : Arena α}

/-! ## Blocks that are all in one -/

/-- All blocks stand under the outermost one. -/
def Rooted (a : Arena α) : Prop := ∀ block < a.size, a.Under root block

/-- The only block of a new arena is the outermost one. -/
theorem rooted_new : (Arena.new : Arena α).Rooted := by
  intro block hblock
  obtain rfl : block = root := Nat.lt_one_iff.1 hblock
  exact .refl

/-- A line moves no block. -/
theorem Rooted.line (h : a.Rooted) (block : Nat) (l : α) : (a.line block l).Rooted := by
  intro x hx
  rw [size_line] at hx
  exact (h x hx).keeps (keeps_line a block l)

/-- **A block that is reserved stands under the outermost one.** -/
theorem Rooted.reserve (h : a.Rooted) (place : Place) {block : Nat} (hblock : block < a.size) :
    (a.reserve place block).2.Rooted := by
  intro x hx
  rw [size_reserve] at hx
  have hold : ∀ y < a.size, (a.reserve place block).2.Under root y :=
    fun y hy => (h y hy).keeps (keeps_reserve a place block)
  rcases Nat.lt_succ_iff_lt_or_eq.1 hx with hlt | rfl
  · exact hold x hlt
  · exact .deeper (hold block hblock) (getElem?_body_reserve hblock place)

/-! ## Lines of blocks -/

/-- A line stands in a block or in a block under it. -/
def Shows (a : Arena α) (block : Nat) (l : α) : Prop :=
  ∃ x i : Nat, a.Under block x ∧ (a.body x)[i]? = some (.line l)

/-- What stands under a block stands under those that hold it. -/
theorem Under.trans {x y z : Nat} (h : a.Under x y) (h' : a.Under y z) : a.Under x z := by
  induction h' with
  | refl => exact h
  | deeper _ hput ih => exact .deeper ih hput

/-- A block under another one is that one, or stands under one that it holds. -/
theorem under_iff {block x : Nat} :
    a.Under block x ↔ x = block
      ∨ ∃ place child, .block place child ∈ a.body block ∧ a.Under child x := by
  constructor
  · intro h
    induction h with
    | refl => exact Or.inl rfl
    | @deeper p k child place hp hput ih =>
        rcases ih with rfl | ⟨place', child', hput', hunder⟩
        · exact Or.inr ⟨place, child, List.mem_of_getElem? hput, .refl⟩
        · exact Or.inr ⟨place', child', hput', .deeper hunder hput⟩
  · rintro (rfl | ⟨place, child, hput, hunder⟩)
    · exact .refl
    · obtain ⟨k, hk⟩ := List.mem_iff_getElem?.1 hput
      exact Under.trans (.deeper .refl hk) hunder

/-- What a block shows is its own lines and what the blocks in it show. -/
theorem shows_iff {block : Nat} {l : α} :
    a.Shows block l ↔ .line l ∈ a.body block
      ∨ ∃ place child, .block place child ∈ a.body block ∧ a.Shows child l := by
  constructor
  · rintro ⟨x, i, hunder, hline⟩
    rcases under_iff.1 hunder with rfl | ⟨place, child, hput, hchild⟩
    · exact Or.inl (List.mem_of_getElem? hline)
    · exact Or.inr ⟨place, child, hput, x, i, hchild, hline⟩
  · rintro (hline | ⟨place, child, hput, x, i, hunder, hline⟩)
    · obtain ⟨i, hi⟩ := List.mem_iff_getElem?.1 hline
      exact ⟨block, i, .refl, hi⟩
    · exact ⟨x, i, under_iff.2 (Or.inr ⟨place, child, hput, hunder⟩), hline⟩

section Rendering

variable (text : α → String) (unit : String)

/-- The lines of a block at a place have those of the block. -/
theorem exists_depth_linesAt (a : Arena α) (depth child : Nat) (place : Place) :
    ∃ depth', Passage.linesOf text unit depth' (a.finished child)
      ⊆ a.linesAt text unit depth (.block place child) := by
  cases place with
  | nested =>
      rw [linesAt_nested]
      exact ⟨depth + 1, fun _ h => h⟩
  | inline => exact ⟨depth, fun _ h => h⟩
  | otherwise =>
      refine ⟨depth + 1, ?_⟩
      rw [linesAt_otherwise]
      cases Passage.linesOf text unit (depth + 1) (a.finished child) with
      | nil => exact fun _ h => h
      | cons first more => exact List.subset_cons_self ..

/-- **Every line of a block is written out.** -/
theorem exists_mem_render {block : Nat} {l : α} (h : a.Shows block l) (depth : Nat) :
    ∃ depth', indented unit depth' (text l) ∈ a.render text unit depth block := by
  rw [render_eq_linesOf]
  induction block using block_induction (a := a) generalizing depth with
  | step block ih =>
      rw [linesOf_finished]
      rcases shows_iff.1 h with hline | ⟨place, child, hput, hchild⟩
      · exact ⟨depth, List.mem_flatMap.2 ⟨_, hline, by simp⟩⟩
      · obtain ⟨deeper, hsubset⟩ := a.exists_depth_linesAt text unit depth child place
        obtain ⟨depth', hmem⟩ := ih place child hput hchild deeper
        exact ⟨depth', List.mem_flatMap.2 ⟨_, hput, hsubset hmem⟩⟩

/-- **Nothing else is written out**, but for the lines that lead on to what
    stands in for a block. -/
theorem shows_of_mem_render {block depth : Nat} {line : String}
    (h : line ∈ a.render text unit depth block) :
    (∃ l depth', a.Shows block l ∧ line = indented unit depth' (text l))
      ∨ ∃ depth', line = indented unit depth' elseLine := by
  rw [render_eq_linesOf] at h
  induction block using block_induction (a := a) generalizing depth with
  | step block ih =>
      rw [linesOf_finished] at h
      obtain ⟨item, hitem, hline⟩ := List.mem_flatMap.1 h
      cases item with
      | line l =>
          rw [linesAt_line, List.mem_singleton] at hline
          exact Or.inl ⟨l, depth, shows_iff.2 (Or.inl hitem), hline⟩
      | block place child =>
          have hinside : ∀ {depth'}, line ∈ Passage.linesOf text unit depth' (a.finished child) →
              (∃ l depth', a.Shows block l ∧ line = indented unit depth' (text l))
                ∨ ∃ depth', line = indented unit depth' elseLine := by
            intro depth' hmem
            rcases ih place child hitem hmem with ⟨l, deeper, hl, heq⟩ | helse
            · exact Or.inl ⟨l, deeper, shows_iff.2 (Or.inr ⟨place, child, hitem, hl⟩), heq⟩
            · exact Or.inr helse
          cases place with
          | nested =>
              rw [linesAt_nested] at hline
              exact hinside hline
          | inline => exact hinside hline
          | otherwise =>
              rw [linesAt_otherwise] at hline
              cases hlines : Passage.linesOf text unit (depth + 1) (a.finished child) with
              | nil =>
                  rw [hlines] at hline
                  cases hline
              | cons first more =>
                  rw [hlines] at hline
                  rcases List.mem_cons.1 hline with helse | hmem
                  · exact Or.inr ⟨depth, helse⟩
                  · exact hinside (hlines ▸ hmem)

end Rendering

end Blueprints.Arena
