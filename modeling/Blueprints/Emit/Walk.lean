import Blueprints.Emit.Growth
import Blueprints.Emit.Successors
import Blueprints.Total

/-! # Walks

    A walk writes a routine.  It keeps a stack of *steps*: nodes to visit,
    each with the path on which it was reached and the block it is written
    into.  A node that is on the path of its step is not visited again, so
    control that runs in a circle is written once.

    A walk ends, because a visit replaces its step by steps to successors
    on a longer path, and the paths that can be walked over a number of new
    nodes are finitely many (`reach`). -/

namespace Blueprints

/-- A node to visit. -/
structure Step where
  node : String
  path : Trail
  block : Nat

/-- How many nodes a path lacks. -/
def Index.ahead (index : Index) (path : Trail) : Nat :=
  (unlisted index.nodeIds path.latest).length

/-- The successors of the node with an id. -/
def Context.successorsOf (ctx : Context) (id : String) : List String :=
  match ctx.index.node? id with
  | some n => ctx.successors n
  | none => []

/-- How many ways of at most a number of nodes start at a node. -/
def Context.reach (ctx : Context) : Nat → String → Nat
  | 0, _ => 1
  | k + 1, id => 1 + total ((ctx.successorsOf id).map (ctx.reach k))

/-- Longer ways are no fewer. -/
theorem Context.reach_le_succ (ctx : Context) (k : Nat) (id : String) :
    ctx.reach k id ≤ ctx.reach (k + 1) id := by
  induction k generalizing id with
  | zero => exact Nat.le_add_right 1 _
  | succ k ih => exact Nat.add_le_add_left (total_map_le ih _) 1

theorem Context.reach_mono (ctx : Context) {k k' : Nat} (h : k ≤ k') (id : String) :
    ctx.reach k id ≤ ctx.reach k' id := by
  induction h with
  | refl => exact Nat.le_refl _
  | step _ ih => exact Nat.le_trans ih (ctx.reach_le_succ _ id)

/-- The weight of a step: the ways that start at it. -/
def Context.weight (ctx : Context) (step : Step) : Nat :=
  ctx.reach (ctx.index.ahead step.path) step.node

/-- Every step weighs something: the way that ends at its node. -/
theorem Context.weight_pos (ctx : Context) (step : Step) : 0 < ctx.weight step := by
  unfold weight
  cases ctx.index.ahead step.path with
  | zero => exact Nat.one_pos
  | succ k => exact Nat.lt_add_right _ Nat.one_pos

/-- A path with one more node of the blueprint lacks fewer. -/
theorem Index.ahead_lt {index : Index} {id : String} {n : Node} {path path' : Trail}
    (found : index.node? id = some n) (new : ¬path.contains id = true)
    (within : (path.extend id).Within path') : index.ahead path' < index.ahead path := by
  refine length_unlisted_lt (fun id' h => within id' (List.mem_cons_of_mem _ h))
    (mem_nodeIds_of_node? found) ?_ (within id (List.mem_cons_self ..))
  rwa [← VisitedPath.contains_iff_mem]

/-- The exits of a visit as steps, on the path that the visit left. -/
def Visited.steps (v : Visited) : List Step :=
  v.1.map fun exit => ⟨exit.node, v.2.path, exit.block⟩

/-- The steps behind a visit weigh less than the step to it. -/
theorem Context.weight_visit {ctx : Context} {step : Step} {n : Node} (e : Emission)
    (found : ctx.index.node? step.node = some n)
    (new : ¬step.path.contains step.node = true) :
    total ((visit ctx n step.block (e.onPath (step.path.extend step.node))).steps.map ctx.weight)
      < ctx.weight step := by
  generalize hv : visit ctx n step.block (e.onPath (step.path.extend step.node)) = v
  have within : (step.path.extend step.node).Within v.2.path := by
    rw [← hv]
    exact visit_within ctx n step.block (e.onPath (step.path.extend step.node))
  have exits : v.nodes.Sublist (ctx.successorsOf step.node) := by
    rw [← hv, successorsOf, found]
    exact visit_exits ..
  have ahead := Index.ahead_lt found new within
  obtain ⟨k, hk⟩ : ∃ k, ctx.index.ahead step.path = k + 1 :=
    Nat.exists_eq_succ_of_ne_zero (Nat.ne_of_gt (Nat.lt_of_le_of_lt (Nat.zero_le _) ahead))
  have eq : v.steps.map ctx.weight = v.nodes.map (ctx.reach (ctx.index.ahead v.2.path)) := by
    simp [Visited.steps, Visited.nodes, Context.weight, Function.comp_def]
  rw [eq, weight, hk, reach]
  have step₁ := total_map_le (ctx.reach_mono (Nat.le_of_lt_succ (hk ▸ ahead))) v.nodes
  have step₂ := total_le_of_sublist (exits.map (ctx.reach k))
  omega

/-- Visits the nodes on a stack, and those that they lead to. -/
def walk (ctx : Context) (stack : List Step) (e : Emission) : Emission :=
  match stack with
  | [] => e
  | step :: rest =>
    if _new : step.path.contains step.node then walk ctx rest e
    else
      match _found : ctx.index.node? step.node with
      | none => walk ctx rest e
      | some n =>
        let visited := visit ctx n step.block (e.onPath (step.path.extend step.node))
        walk ctx (visited.steps ++ rest) visited.2
termination_by total (stack.map ctx.weight)
decreasing_by
  · exact Nat.lt_add_of_pos_left (ctx.weight_pos step)
  · exact Nat.lt_add_of_pos_left (ctx.weight_pos step)
  · rw [List.map_append, total_append]
    exact Nat.add_lt_add_right (Context.weight_visit e _found _new) _

end Blueprints
