import Blueprints.Emit.Visit

/-! # Successors

    The successors of a node are the nodes to which control can go on from
    it.  Which connections count is a matter of the node's kind.  A visit
    has an exit to each successor, less those that a sequence or parallel
    node finds on the path (`visit_exits`). -/

namespace Blueprints

/-- The connections that leave the outputs of a list, output by output. -/
def Context.leavingBy (ctx : Context) (n : Node) (outputs : List Param) : List Connection :=
  outputs.flatMap fun p => ctx.index.outgoing ⟨n.id, p.id⟩

/-- The connections by which control goes on from a node of a kind. -/
def Context.waysOut (ctx : Context) (n : Node) (d : Definition) (kind : NodeKind) :
    List Connection :=
  match kind with
  | .functionParameter | .functionReturn | .finish => []
  | .sequence | .parallel | .switch => ctx.leavingBy n d.execOutputs
  | .branch | .forLoop => ctx.leavingBy n (d.execOutputs.take 2)
  | _ => ctx.index.execLeaving n d

/-- The ids of the nodes to which connections lead. -/
def targets (connections : List Connection) : List String :=
  connections.map fun c => c.target.node

/-- The ids of the nodes to which control can go on from a node. -/
def Context.successors (ctx : Context) (n : Node) : List String :=
  match ctx.definition? n with
  | none => []
  | some d =>
    match NodeKind.ofDefinition? d.id with
    | none => targets (ctx.index.execLeaving n d)
    | some kind => targets (ctx.waysOut n d kind)

/-! ## The exits of a visit -/

/-- The ids of the nodes to which exits lead. -/
def Visited.nodes (v : Visited) : List String := v.1.map Exit.node

/-- Each connection has an exit, and so each target. -/
theorem nodes_spread (block : Nat) (connections : List Connection) (e : Emission) :
    Visited.nodes (spread block connections e) = targets connections := by
  induction connections generalizing e with
  | nil => rfl
  | cons c rest ih => exact congrArg (c.target.node :: ·) (ih _)

theorem nodes_goOn (block : Nat) (connections : List Connection) (e : Emission) :
    Visited.nodes (goOn block connections e) = targets connections := by
  unfold goOn
  split
  · rfl
  · exact nodes_spread ..

theorem nodes_goOnBy (ctx : Context) (n : Node) (output : Option Param) (block : Nat)
    (e : Emission) :
    Visited.nodes (goOnBy ctx n output block e) = targets (ctx.leavingBy n output.toList) := by
  cases output with
  | none => rfl
  | some p => simp [goOnBy, nodes_goOn, Context.leavingBy]

/-- The first two outputs, one after the other. -/
theorem leavingBy_take_two (ctx : Context) (n : Node) (outputs : List Param) :
    ctx.leavingBy n outputs[0]?.toList ++ ctx.leavingBy n outputs[1]?.toList
      = ctx.leavingBy n (outputs.take 2) := by
  match outputs with
  | [] => rfl
  | [_] => simp [Context.leavingBy]
  | _ :: _ :: _ => simp [Context.leavingBy]

/-- Each task has an exit. -/
theorem nodes_startTasks (stem : String) (block k : Nat) (connections : List Connection)
    (e : Emission) :
    Visited.nodes (startTasks stem block k connections e).2 = targets connections := by
  induction connections generalizing k e with
  | nil => rfl
  | cons c rest ih => exact congrArg (c.target.node :: ·) (ih _ _)

theorem targets_newBranches (ctx : Context) (n : Node) (d : Definition) (e : Emission) :
    (targets (newBranches ctx n d e)).Sublist (targets (ctx.leavingBy n d.execOutputs)) :=
  List.Sublist.map _ List.filter_sublist

/-- A parallel node has exits to the new branches. -/
theorem nodes_visitParallel (ctx : Context) (n : Node) (d : Definition) (block : Nat)
    (e : Emission) :
    Visited.nodes (visitParallel ctx n d block e) = targets (newBranches ctx n d e) := by
  unfold visitParallel
  split
  · next h => rw [h]; rfl
  · exact nodes_startTasks ..

/-- A branch has exits by its first two outputs. -/
theorem nodes_visitBranch (ctx : Context) (n : Node) (d : Definition) (condition : Operand)
    (block : Nat) (e : Emission) :
    Visited.nodes (visitBranch ctx n d condition block e)
      = targets (ctx.leavingBy n (d.execOutputs.take 2)) := by
  rw [← leavingBy_take_two, targets, List.map_append]
  simp only [visitBranch, Visited.nodes, List.map_append]
  congr 1
  · exact nodes_goOnBy ..
  · exact nodes_goOnBy ..

/-- So has a loop. -/
theorem nodes_visitLoop (ctx : Context) (n : Node) (d : Definition) (count : Operand)
    (block : Nat) (e : Emission) :
    Visited.nodes (visitLoop ctx n d count block e)
      = targets (ctx.leavingBy n (d.execOutputs.take 2)) := by
  rw [← leavingBy_take_two, targets, List.map_append]
  simp only [visitLoop, Visited.nodes, List.map_append]
  congr 1
  · exact nodes_goOnBy ..
  · exact nodes_goOnBy ..

/-- A switch has exits by all its outputs. By induction on the outputs. -/
theorem nodes_writeCases (ctx : Context) (n : Node) (cases : Nat) (outputs : List Param)
    (e : Emission) :
    Visited.nodes (writeCases ctx n cases outputs e) = targets (ctx.leavingBy n outputs) := by
  induction outputs generalizing e with
  | nil => rfl
  | cons p rest ih =>
    rw [Context.leavingBy, List.flatMap_cons, targets, List.map_append]
    unfold writeCases
    split
    · next h =>
      rw [h]
      exact ih e
    · simp only [Visited.nodes, List.map_append]
      congr 1
      · exact nodes_goOn ..
      · exact ih _

/-- **The exits of a visit lead to ways out of its node.** -/
theorem nodes_visitKind (ctx : Context) (n : Node) (d : Definition) (kind : NodeKind)
    (operand : String → Operand) (block : Nat) (e : Emission) :
    (Visited.nodes (visitKind ctx n d kind operand block e)).Sublist
      (targets (ctx.waysOut n d kind)) := by
  cases kind with
  | functionParameter | functionReturn | finish => exact List.Sublist.refl _
  | sequence =>
    exact (nodes_spread block (newBranches ctx n d e) e) ▸ targets_newBranches ctx n d e
  | parallel => exact nodes_visitParallel .. ▸ targets_newBranches ctx n d e
  | branch => exact nodes_visitBranch .. ▸ List.Sublist.refl _
  | forLoop => exact nodes_visitLoop .. ▸ List.Sublist.refl _
  | switch => exact nodes_writeCases .. ▸ List.Sublist.refl _
  | _ => exact nodes_goOn .. ▸ List.Sublist.refl _

/-- Every exit of a visit leads to a successor, and none twice for one
    connection. -/
theorem visit_exits (ctx : Context) (n : Node) (block : Nat) (e : Emission) :
    (Visited.nodes (visit ctx n block e)).Sublist (ctx.successors n) := by
  unfold visit Context.successors
  cases ctx.definition? n with
  | none => exact List.Sublist.refl _
  | some d =>
    dsimp only
    cases NodeKind.ofDefinition? d.id with
    | none => exact nodes_goOn .. ▸ List.Sublist.refl _
    | some kind => exact nodes_visitKind ..

end Blueprints
