import Blueprints.Proofs.Code.Rendering
import Blueprints.Proofs.Program.Routines

/-! # Rendering routines

    The blocks of every routine are built by the operations on blocks
    (`built_of_mem_routines`), so they form a tree, and all lines of the routine
    stand in its text once and in order.  They are also what became of this text
    by filling blocks in some order (`filled_of_mem_routines`), and any other
    order gives the same lines.  The main statement is about all blocks that are
    built (`rendering_loses_and_repeats_nothing`). -/

namespace Blueprints

open Arena Emission

/-- The blocks of a routine are built by lines and reservations. -/
theorem built_of_mem_routines {ctx : Context} {r : Routine} (hr : r ∈ ctx.routines) :
    r.blocks.Built :=
  forall_routines (P := fun r => r.blocks.Built) (fun _ _ hmoves =>
    hmoves.blocks_induction (fun s _ hbuilt => hbuilt.line _ s)
      (fun place hblock hbuilt => hbuilt.reserve place hblock) built_new) ctx r hr

/-- The blocks of a routine are what became of its text. -/
theorem filled_of_mem_routines {ctx : Context} {r : Routine} (hr : r ∈ ctx.routines) :
    r.blocks.Filled :=
  forall_routines (P := fun r => r.blocks.Filled) (fun _ _ hmoves =>
    hmoves.blocks_induction (fun s hblock hfilled => hfilled.line hblock s)
      (fun place hblock hfilled => hfilled.reserve place hblock) filled_new) ctx r hr

/-- **Rendering loses and repeats nothing.**  However blocks are built, a block
    that is held has a greater number than its holder and is held at no other
    position, so that going down from a block comes to an end.  What is written
    out for a block is its text in order, and is nothing exactly if the block
    counts as empty.  The lines of the text are the lines under the block, and
    each of them stands there once.  Blocks that are filled with the same text in
    another order are written out alike. -/
theorem rendering_loses_and_repeats_nothing {α : Type} {a : Arena α} (h : a.Built)
    (text : α → String) (unit : String) :
    (∀ {p i child : Nat} {place : Place}, (a.body p)[i]? = some (.block place child) →
      p < child ∧ child < a.size ∧ ∀ {q j : Nat} {place' : Place},
        (a.body q)[j]? = some (.block place' child) → q = p ∧ j = i)
      ∧ (WellFounded fun child block => ∃ place, .block place child ∈ a.body block)
      ∧ (∀ depth id : Nat,
        a.render text unit depth id = (a.inOrder depth id).map (Row.written text unit)
          ∧ (a.isEmpty id = true ↔ a.render text unit depth id = [])
          ∧ (∀ {x i : Nat} {l : α}, (∃ depth', .line x i depth' l ∈ a.inOrder depth id)
            ↔ a.Under id x ∧ (a.body x)[i]? = some (.line l))
          ∧ ∀ {x i : Nat} {l : α}, a.Under id x → (a.body x)[i]? = some (.line l) →
            (a.places depth id).count (x, i) = 1)
      ∧ ∀ a' : Arena α,
        Relation.ReflTransGen Draft.Step (.ofText (a.finished root)) (.done a') →
          ∀ depth, a'.render text unit depth root = a.render text unit depth root := by
  have tree := h.isTree
  refine ⟨fun hput => ?_, a.wellFounded_holds, fun depth id => ?_, fun a' hleads depth => ?_⟩
  · have hmem := List.mem_of_getElem? hput
    exact ⟨lt_of_mem_body hmem, tree.closed hmem, fun hput' => tree.sole hput' hput⟩
  · exact ⟨a.render_eq_inOrder text unit depth id, a.isEmpty_iff_render text unit depth id,
      mem_inOrder_iff, fun hunder hline => tree.count_places hunder hline⟩
  · rw [render_eq_linesOf, render_eq_linesOf, Draft.finished_of_leads hleads]

/-! ### A block that is filled late -/

namespace Gate

/-- A function that prints if a condition does not hold. -/
def blueprint : Blueprint where
  kind := .function
  nodes := [⟨"begin", "function_start", "", {}, [], []⟩, ⟨"if", "if_condition", "", {}, [], []⟩,
    ⟨"p", "print", "", {}, [], []⟩]
  connections := [⟨"c1", ⟨"begin", "exec"⟩, ⟨"if", "exec"⟩⟩, ⟨"c2", ⟨"if", "false"⟩, ⟨"p", "exec"⟩⟩]

theorem print_stands_in_otherwise : (Context.of blueprint .builtin {}).routines.any (fun r =>
    (r.blocks.body 0)[0]? == some (.block .inline 1)
      && (r.blocks.body 1)[3]? == some (.block .otherwise 3)
      && (r.blocks.body 3)[0]? == some (.line (.comment "Print (p)"))) = true := by
  decide +kernel

/-- A text with a block in it. -/
def gap : List (Passage String) := [.deeper [.line "b"], .line "c"]

/-- The text with its block filled before the line behind it is written. -/
def soon : Arena String := ((new.reserve .nested 0).2.line 1 "b").line 0 "c"

/-- The text with its block filled after the line behind it is written. -/
def late : Arena String := ((new.reserve .nested 0).2.line 0 "c").line 1 "b"

/-- The first step in both orders. -/
theorem reserved : Draft.Step (.ofText gap)
    ⟨(new.reserve .nested 0).2, ahead (ahead (fun _ => []) 0 [.line "c"]) 1 [.line "b"]⟩ := by
  have hstep : Draft.Step
      ⟨new, ahead (ahead (fun _ => []) 0 [.line "c"]) 0 (Place.nested.wrap [.line "b"])⟩
      ⟨(new.reserve .nested 0).2, ahead (ahead (fun _ => []) 0 [.line "c"]) 1 [.line "b"]⟩ :=
    .reserve Nat.one_pos .nested _ (ahead_of_ne Nat.one_ne_zero)
  rwa [ahead_ahead] at hstep

/-- The block can be filled before the line behind it. -/
theorem leads_soon : Relation.ReflTransGen Draft.Step (.ofText gap) (.done soon) :=
  ((Relation.ReflTransGen.single reserved).tail (.line (by decide) "b" _)).tail
    (.line (by decide) "c" _)

/-- The block can be filled after the line behind it. -/
theorem leads_late : Relation.ReflTransGen Draft.Step (.ofText gap) (.done late) := by
  have hreserved := reserved
  rw [ahead_comm _ Nat.zero_ne_one] at hreserved
  exact ((Relation.ReflTransGen.single hreserved).tail (.line (by decide) "c" _)).tail
    (.line (by decide) "b" _)

theorem otherwise_once_and_late_as_soon :
    (∃ r ∈ (Context.of blueprint .builtin {}).routines,
      (r.blocks.places 0 root).count (3, 0) = 1
        ∧ r.blocks.isEmpty 3 = false
        ∧ r.blocks.render Statement.text "  " 0 root
          = (r.blocks.inOrder 0 root).map (Row.written Statement.text "  ")
        ∧ Relation.ReflTransGen Draft.Step (.ofText (r.blocks.finished root)) (.done r.blocks))
      ∧ late.render id "  " 0 root = soon.render id "  " 0 root
      ∧ soon.render id "  " 0 root = ["  b", "c"] := by
  have hsoon : soon.Built :=
    ((built_new.reserve .nested Nat.one_pos).line 1 "b").line 0 "c"
  have htext : soon.finished root = gap := Draft.finished_of_leads leads_soon
  obtain ⟨-, -, -, horder⟩ := rendering_loses_and_repeats_nothing hsoon id "  "
  refine ⟨?_, horder late (htext ▸ leads_late) 0, ?_⟩
  · obtain ⟨r, hr, hbody⟩ := List.any_eq_true.1 print_stands_in_otherwise
    simp only [Bool.and_eq_true, beq_iff_eq] at hbody
    obtain ⟨⟨hinline, hotherwise⟩, hline⟩ := hbody
    obtain ⟨-, -, hrender, -⟩ :=
      rendering_loses_and_repeats_nothing (built_of_mem_routines hr) Statement.text "  "
    have hunder : r.blocks.Under root 3 := .deeper (.deeper .refl hinline) hotherwise
    obtain ⟨hrows, -, -, hcount⟩ := hrender 0 root
    refine ⟨r, hr, hcount hunder hline, ?_, hrows, (filled_of_mem_routines hr).leads⟩
    obtain ⟨hrows, hempty, hmem, -⟩ := hrender 0 3
    rw [Bool.eq_false_iff, Ne, hempty, hrows, List.map_eq_nil_iff]
    intro hnil
    obtain ⟨depth, hrow⟩ := hmem.2 ⟨.refl, hline⟩
    rw [hnil] at hrow
    cases hrow
  · rw [render_eq_linesOf, htext]
    decide

end Gate

end Blueprints
