import Blueprints.Emit.Visit

/-! # The path only grows

    Reading a value may add pure nodes to the path, and takes none from it.
    So every node that control has come by stays on the path, and a walk
    that never goes back to a node on its path ends. -/

namespace Blueprints

theorem path_reportFanIn (e : Emission) (ctx : Context) (n : Node) (param : String) :
    (e.reportFanIn ctx n param).path = e.path := by
  unfold Emission.reportFanIn
  split <;> rfl

theorem path_reportNoValue (e : Emission) (ctx : Context) (n : Node) (param : String) :
    (e.reportNoValue ctx n param).path = e.path := by
  unfold Emission.reportNoValue
  split <;> rfl

section Growth

variable {ctx : Context} {computing : String → Emission → Emission} {active : List String}
  {n : Node}

/-- To read an input takes nothing from the path, if computing does not. -/
theorem readWith_within
    (grows : ∀ id (e : Emission), e.path.Within (computing id e).path) (param : String)
    (e : Emission) : e.path.Within (readWith ctx computing active n param e).2.path := by
  unfold readWith
  have h := path_reportFanIn e ctx n param
  split
  · exact h ▸ .refl _
  · exact h ▸ .refl _
  · dsimp only
    split
    · exact fun id hid => grows _ _ id (by simpa [h] using hid)
    · exact fun id hid => by simpa [h] using hid
  · exact fun id hid => by simpa [path_reportNoValue, h] using hid

/-- To read inputs takes nothing from the path. -/
theorem readAllWith_within (grows : ∀ id (e : Emission), e.path.Within (computing id e).path)
    (params : List String) (e : Emission) :
    e.path.Within (readAllWith ctx computing active n params e).2.path := by
  induction params generalizing e with
  | nil => exact .refl _
  | cons param rest ih => exact (readWith_within grows param e).trans (ih _)

/-- To assign a temporary takes nothing from the path. -/
theorem assignWith_within
    (grows : ∀ id (e : Emission), e.path.Within (computing id e).path) (block : Nat)
    (e : Emission) : e.path.Within (assignWith ctx computing active n block e).path := by
  unfold assignWith
  split
  · exact .refl _
  · split
    · exact fun id hid => by simpa using readAllWith_within grows _ e id hid
    · exact .refl _

end Growth

theorem foldl_within {α : Type} {f : Emission → α → Emission}
    (grows : ∀ (e : Emission) a, e.path.Within (f e a).path) (as : List α) (e : Emission) :
    e.path.Within (as.foldl f e).path := by
  induction as generalizing e with
  | nil => exact .refl _
  | cons a as ih => exact (grows e a).trans (ih _)

/-- **A computation takes nothing from the path.** By recursion on the nodes that
    are not being computed yet. -/
theorem compute_within (ctx : Context) (block : Nat) (active : List String) (id : String)
    (e : Emission) : e.path.Within (compute ctx block active id e).path := by
  unfold compute
  split
  · exact .refl _
  · split
    · exact .refl _
    · next idle =>
      split
      · exact .refl _
      · next n found =>
        have smaller : (unlisted ctx.index.nodeIds (id :: active)).length
            < (unlisted ctx.index.nodeIds active).length :=
          length_unlisted_lt (fun _ h => List.mem_cons_of_mem _ h)
            (Index.mem_nodeIds_of_node? found) idle (List.mem_cons_self ..)
        have recursion : ∀ id' (e : Emission),
            e.path.Within (compute ctx block (id :: active) id' e).path :=
          fun id' e => compute_within ctx block (id :: active) id' e
        have first := foldl_within (fun e id' => recursion id' e) (ctx.pureDependencies n) e
        refine first.trans fun id' h => Emission.mem_path_settle ?_
        exact assignWith_within recursion block _ id' h
termination_by (unlisted ctx.index.nodeIds active).length

theorem computeOnce_within (ctx : Context) (block : Nat) (id : String) (e : Emission) :
    e.path.Within (computeOnce ctx block id e).path :=
  compute_within ctx block [] id e

theorem readInputs_within (ctx : Context) (n : Node) (params : List String) (block : Nat)
    (e : Emission) : e.path.Within (readInputs ctx n params block e).2.path :=
  readAllWith_within (computeOnce_within ctx block) params e

theorem assignPure_within (ctx : Context) (n : Node) (block : Nat) (e : Emission) :
    e.path.Within (assignPure ctx n block e).path :=
  assignWith_within (computeOnce_within ctx block) block e

/-! ## Visits -/

/-- Going on leaves the path as it is, by one connection or several. -/
@[simp] theorem path_spread (block : Nat) (connections : List Connection) (e : Emission) :
    (spread block connections e).2.path = e.path := by
  induction connections generalizing e with
  | nil => rfl
  | cons c rest ih => simp [spread, ih]

@[simp] theorem path_goOn (block : Nat) (connections : List Connection) (e : Emission) :
    (goOn block connections e).2.path = e.path := by
  unfold goOn
  split
  · rfl
  · exact path_spread ..

@[simp] theorem path_follow (ctx : Context) (n : Node) (d : Definition) (block : Nat)
    (e : Emission) : (follow ctx n d block e).2.path = e.path :=
  path_goOn ..

@[simp] theorem path_goOnBy (ctx : Context) (n : Node) (output : Option Param) (block : Nat)
    (e : Emission) : (goOnBy ctx n output block e).2.path = e.path := by
  unfold goOnBy
  split
  · exact path_goOn ..
  · rfl

/-- The nodes that place what follows them leave the path as it is: tasks, branches,
    loops and cases. -/
@[simp] theorem path_startTasks (stem : String) (block k : Nat) (connections : List Connection)
    (e : Emission) : (startTasks stem block k connections e).2.2.path = e.path := by
  induction connections generalizing k e with
  | nil => rfl
  | cons c rest ih => simp [startTasks, ih]

@[simp] theorem path_visitParallel (ctx : Context) (n : Node) (d : Definition) (block : Nat)
    (e : Emission) : (visitParallel ctx n d block e).2.path = e.path := by
  unfold visitParallel
  split
  · rfl
  · simp

@[simp] theorem path_visitBranch (ctx : Context) (n : Node) (d : Definition)
    (condition : Operand) (block : Nat) (e : Emission) :
    (visitBranch ctx n d condition block e).2.path = e.path := by
  simp [visitBranch]

@[simp] theorem path_visitLoop (ctx : Context) (n : Node) (d : Definition) (count : Operand)
    (block : Nat) (e : Emission) : (visitLoop ctx n d count block e).2.path = e.path := by
  simp [visitLoop]

@[simp] theorem path_writeCases (ctx : Context) (n : Node) (cases : Nat) (outputs : List Param)
    (e : Emission) : (writeCases ctx n cases outputs e).2.path = e.path := by
  induction outputs generalizing e with
  | nil => rfl
  | cons p rest ih =>
    unfold writeCases
    split
    · exact ih e
    · simp [ih]

@[simp] theorem path_visitSwitch (ctx : Context) (n : Node) (d : Definition) (value : Operand)
    (block : Nat) (e : Emission) : (visitSwitch ctx n d value block e).2.path = e.path := by
  simp [visitSwitch]

/-- Only a pure node that control reaches adds to the path, by what its own value
    needs. -/
theorem visitKind_within (ctx : Context) (n : Node) (d : Definition) (kind : NodeKind)
    (operand : String → Operand) (block : Nat) (e : Emission) :
    e.path.Within (visitKind ctx n d kind operand block e).2.path := by
  cases kind with
  | pure kind => exact fun id h => by simpa [visitKind] using assignPure_within ctx n block e id h
  | _ => simpa [visitKind] using VisitedPath.Within.refl e.path

@[simp] theorem path_announce (e : Emission) (ctx : Context) (n : Node) (d : Definition)
    (kind : NodeKind) (block : Nat) : (e.announce ctx n d kind block).path = e.path := by
  unfold Emission.announce
  split <;> rfl

/-- A visit keeps every node that is on the path. -/
theorem visit_within (ctx : Context) (n : Node) (block : Nat) (e : Emission) :
    e.path.Within (visit ctx n block e).2.path := by
  unfold visit
  split
  · exact .refl _
  · split
    · simpa using VisitedPath.Within.refl e.path
    · next d _ _ kind _ =>
      have reading :=
        readInputs_within ctx n (kind.slots ctx n) block (e.announce ctx n d kind block)
      rw [path_announce] at reading
      exact reading.trans (visitKind_within ctx n d kind _ block _)

end Blueprints
