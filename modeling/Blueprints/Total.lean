/-! # Totals — sums that bound a loop

    A loop over a stack of pending work ends if each entry has a weight and
    every step takes more weight off the stack than it puts there. -/

namespace Blueprints

/-- The sum of a list of numbers. -/
def total (weights : List Nat) : Nat := weights.foldr (· + ·) 0

@[simp] theorem total_nil : total [] = 0 := rfl

@[simp] theorem total_cons (w : Nat) (ws : List Nat) : total (w :: ws) = w + total ws := rfl

@[simp] theorem total_append (ws ws' : List Nat) : total (ws ++ ws') = total ws + total ws' := by
  induction ws with
  | nil => simp
  | cons w ws ih => simp [ih, Nat.add_assoc]

/-- Fewer entries weigh no more. -/
theorem total_le_of_sublist {ws ws' : List Nat} (h : ws.Sublist ws') : total ws ≤ total ws' := by
  induction h with
  | slnil => exact Nat.le_refl _
  | cons w _ ih => exact Nat.le_trans ih (Nat.le_add_left _ w)
  | cons_cons w _ ih => exact Nat.add_le_add_left ih w

/-- Lighter entries weigh no more. -/
theorem total_map_le {α : Type} {f g : α → Nat} (h : ∀ a, f a ≤ g a) (as : List α) :
    total (as.map f) ≤ total (as.map g) := by
  induction as with
  | nil => exact Nat.le_refl _
  | cons a as ih => exact Nat.add_le_add (h a) ih

end Blueprints
