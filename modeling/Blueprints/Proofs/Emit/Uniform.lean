import Blueprints.Emit.Visit
import Blueprints.Proofs.Code.Blocks

/-! # Reading is uniform in the block

    To read an input writes lines into one block and never looks at what is
    written.  So the lines, the operand and everything else that changes are
    the same whatever the blocks are and whichever of them is written into
    (`uniform_readInputs`, `uniform_assignPure`).  What reading writes can
    therefore be told apart from where it is written. -/

namespace Blueprints

/-- What a routine declares depends on its names, not on what is written in it. -/
theorem Routine.declare_of_blocks (r : Routine) (a : Arena Statement) (name type : String) :
    ({ r with blocks := a } : Routine).declare name type
      = { r.declare name type with blocks := a } := by
  show (if r.declared.contains name then _ else _) = _
  by_cases h : r.declared.contains name = true
  · rw [if_pos h, Routine.declare, if_pos h]
  · rw [if_neg h, Routine.declare, if_neg h]

namespace Emission

/-- The blocks that are being written. -/
abbrev blocks (e : Emission) : Arena Statement := e.routine.blocks

/-- An emission with other blocks. -/
def withBlocks (e : Emission) (a : Arena Statement) : Emission :=
  { e with routine := { e.routine with blocks := a } }

/-- An emission in which nothing is written yet. -/
def detached (e : Emission) : Emission := e.withBlocks .new

/-- Notes what a statement uses, without writing it. -/
def mention (e : Emission) (s : Statement) : Emission :=
  { e with findings := e.findings.note s }

@[simp] theorem blocks_withBlocks (e : Emission) (a : Arena Statement) :
    (e.withBlocks a).blocks = a := rfl

/-- Declaring a name looks at no block. -/
theorem declare_withBlocks (e : Emission) (a : Arena Statement) (name type : String) :
    (e.withBlocks a).declare name type = (e.declare name type).withBlocks a :=
  congrArg (fun r => ({ e with routine := r } : Emission))
    (e.routine.declare_of_blocks a name type)

@[simp] theorem blocks_emit (e : Emission) (b : Nat) (s : Statement) :
    (e.emit b s).blocks = e.blocks.line b s := rfl

@[simp] theorem blocks_reserve (e : Emission) (place : Place) (b : Nat) :
    (e.reserve place b).2.blocks = (e.blocks.reserve place b).2 := rfl

@[simp] theorem fst_reserve (e : Emission) (place : Place) (b : Nat) :
    (e.reserve place b).1 = e.blocks.size := rfl

@[simp] theorem detached_emit (e : Emission) (b : Nat) (s : Statement) :
    (e.emit b s).detached = e.detached.mention s := rfl

@[simp] theorem detached_reserve (e : Emission) (place : Place) (b : Nat) :
    (e.reserve place b).2.detached = e.detached := rfl

/-- A statement that needs no helper and names no variable leaves no mark. -/
theorem mention_eq_self {s : Statement} (hhelpers : s.helpers = []) (hvars : s.usedVariables = [])
    (e : Emission) : e.mention s = e := by
  rw [mention, Findings.note, hhelpers, hvars]
  rfl

/-- A brace that closes leaves no mark; neither does what labels a case or leaves it. -/
@[simp] theorem mention_close (e : Emission) : e.mention .close = e := mention_eq_self rfl rfl e

@[simp] theorem mention_leaveCase (e : Emission) : e.mention .leaveCase = e :=
  mention_eq_self rfl rfl e

@[simp] theorem mention_openCase (e : Emission) (label : CaseLabel) :
    e.mention (.openCase label) = e := mention_eq_self rfl rfl e

/-- A declaration writes no line. -/
@[simp] theorem blocks_declare (e : Emission) (name type : String) :
    (e.declare name type).blocks = e.blocks := by
  have h := congrArg Emission.blocks (declare_withBlocks e e.blocks name type)
  exact h

@[simp] theorem isCurrent_withBlocks (e : Emission) (a : Arena Statement) (ctx : Context)
    (id : String) : (e.withBlocks a).isCurrent ctx id = e.isCurrent ctx id := rfl

/-- The report about several connections to an input looks at no block. -/
theorem reportFanIn_withBlocks (e : Emission) (a : Arena Statement) (ctx : Context) (n : Node)
    (param : String) :
    (e.withBlocks a).reportFanIn ctx n param = (e.reportFanIn ctx n param).withBlocks a := by
  simp only [reportFanIn]
  split <;> rfl

/-- Neither does the report about one that brings no value. -/
theorem reportNoValue_withBlocks (e : Emission) (a : Arena Statement) (ctx : Context) (n : Node)
    (param : String) :
    (e.withBlocks a).reportNoValue ctx n param = (e.reportNoValue ctx n param).withBlocks a := by
  simp only [reportNoValue]
  split <;> rfl

/-- To settle a node is to mark it in the path, not in a block. -/
theorem settle_withBlocks (e : Emission) (a : Arena Statement) (ctx : Context) (id : String) :
    (e.withBlocks a).settle ctx id = (e.settle ctx id).withBlocks a := by
  simp only [settle]
  split <;> rfl

end Emission

/-! ## Uniform writing -/

/-- What is written into a block, and what else changes, is the same for all
    blocks. -/
def Uniform (f : Nat → Emission → Emission) : Prop :=
  ∀ e : Emission, ∃ (ss : List Statement) (r : Emission), ∀ b a,
    f b (e.withBlocks a) = r.withBlocks (a.lines b ss)

/-- The same for a way to write that has a result. -/
def UniformRead {β : Type} (f : Nat → Emission → β × Emission) : Prop :=
  ∀ e : Emission, ∃ (v : β) (ss : List Statement) (r : Emission), ∀ b a,
    f b (e.withBlocks a) = (v, r.withBlocks (a.lines b ss))

/-- **Uniform writings compose**: the lines of the second follow those of the first.
    -/
theorem Uniform.comp {f g : Nat → Emission → Emission} (hf : Uniform f) (hg : Uniform g) :
    Uniform fun b e => g b (f b e) := by
  intro e
  obtain ⟨ss, r, hr⟩ := hf e
  obtain ⟨ss', r', hr'⟩ := hg r
  exact ⟨ss ++ ss', r', fun b a => by
    dsimp only
    rw [hr, hr', Arena.lines_append]⟩

/-- A list of uniform writings, done one after the other, is uniform. -/
theorem Uniform.foldl {α : Type} {f : α → Nat → Emission → Emission}
    (hf : ∀ x, Uniform (f x)) (xs : List α) :
    Uniform fun b e => xs.foldl (fun e x => f x b e) e := by
  induction xs with
  | nil => exact fun e => ⟨[], e, fun b a => rfl⟩
  | cons x xs ih => exact (hf x).comp ih

section Reading

variable (ctx : Context) {computing : Nat → String → Emission → Emission}
  (active : List String) (n : Node)

/-- Reading an input is uniform if computing a node is: the operand, and the lines that
    compute it, are the same in every block. -/
theorem uniform_readWith (h : ∀ id, Uniform fun b => computing b id) (param : String) :
    UniformRead fun b => readWith ctx (computing b) active n param := by
  intro e
  simp only [readWith, Emission.reportFanIn_withBlocks]
  cases ctx.source n param with
  | literal v kind => exact ⟨_, [], e.reportFanIn ctx n param, fun b a => rfl⟩
  | parameter name type => exact ⟨_, [], e.reportFanIn ctx n param, fun b a => rfl⟩
  | temporary name output kind =>
      simp only [Emission.declare_withBlocks, Emission.isCurrent_withBlocks]
      -- whether the producer is computed does not depend on the blocks
      cases (ctx.index.isPure ctx.catalog output.node
          && !((e.reportFanIn ctx n param).declare name kind.typeName).isCurrent ctx output.node
          && !active.contains output.node) with
      | true =>
          obtain ⟨ss, r, hr⟩ :=
            h output.node ((e.reportFanIn ctx n param).declare name kind.typeName)
          refine ⟨.temporary name, ss, r, fun b a => ?_⟩
          dsimp only at hr
          rw [if_pos rfl, hr]
      | false =>
          refine ⟨.temporary name, [], (e.reportFanIn ctx n param).declare name kind.typeName,
            fun b a => ?_⟩
          rw [if_neg Bool.false_ne_true]
          rfl
  | undefined =>
      exact ⟨.undefined, [], (e.reportFanIn ctx n param).reportNoValue ctx n param, fun b a => by
        simp only [Emission.reportNoValue_withBlocks]; rfl⟩

/-- So is reading several inputs in a row. -/
theorem uniform_readAllWith (h : ∀ id, Uniform fun b => computing b id) (params : List String) :
    UniformRead fun b => readAllWith ctx (computing b) active n params := by
  induction params with
  | nil => exact fun e => ⟨[], [], e, fun b a => rfl⟩
  | cons param rest ih =>
      intro e
      obtain ⟨v, ss, r, hr⟩ := uniform_readWith ctx active n h param e
      obtain ⟨vs, ss', r', hr'⟩ := ih r
      refine ⟨(param, v) :: vs, ss ++ ss', r', fun b a => ?_⟩
      dsimp only at hr hr'
      simp only [readAllWith]
      rw [hr, hr', Arena.lines_append]

/-- An assignment is uniform: its operands are read first, and its own line follows
    theirs. -/
theorem uniform_assignWith (h : ∀ id, Uniform fun b => computing b id) :
    Uniform fun b => assignWith ctx (computing b) active n b := by
  intro e
  simp only [assignWith]
  split
  · exact ⟨[], e, fun b a => rfl⟩
  · next d _ =>
    split
    · next kind name type _ _ =>
      obtain ⟨v, ss, r, hr⟩ :=
        uniform_readAllWith ctx active n h kind.slots e
      refine ⟨ss ++ [.assign name (kind.expr ctx n d (operandOf v))],
        (r.declare name type).mention (.assign name (kind.expr ctx n d (operandOf v))),
        fun b a => ?_⟩
      dsimp only at hr
      rw [hr, Arena.lines_append, Emission.declare_withBlocks]
      rfl
    · exact ⟨[], e, fun b a => rfl⟩

end Reading

/-- **Computing a node is uniform.** By recursion on the nodes that are not being
    computed yet, as the computation itself is. -/
theorem uniform_compute (ctx : Context) (active : List String) (id : String) :
    Uniform fun b => compute ctx b active id := by
  intro e
  by_cases hcur : e.isCurrent ctx id = true
  · refine ⟨[], e, fun b a => ?_⟩
    show compute ctx b active id (e.withBlocks a) = _
    rw [compute, if_pos (show (e.withBlocks a).isCurrent ctx id = true from hcur)]
    rfl
  · by_cases hact : id ∈ active
    · refine ⟨[], e.report .shapeAmbiguity id "data cycle: value is read before it is computed",
        fun b a => ?_⟩
      show compute ctx b active id (e.withBlocks a) = _
      rw [compute, if_neg (show ¬(e.withBlocks a).isCurrent ctx id = true from hcur),
        dif_pos hact]
      rfl
    · cases hn : ctx.index.node? id with
      | none =>
          refine ⟨[], e, fun b a => ?_⟩
          show compute ctx b active id (e.withBlocks a) = _
          rw [compute, if_neg (show ¬(e.withBlocks a).isCurrent ctx id = true from hcur),
            dif_neg hact]
          split
          · rfl
          · next n hn' => exact absurd (hn.symm.trans hn') (by simp)
      | some n =>
          have smaller : (unlisted ctx.index.nodeIds (id :: active)).length
              < (unlisted ctx.index.nodeIds active).length :=
            length_unlisted_lt (fun _ h => List.mem_cons_of_mem _ h)
              (Index.mem_nodeIds_of_node? hn) hact (List.mem_cons_self ..)
          have recursion : ∀ id', Uniform fun b => compute ctx b (id :: active) id' :=
            fun id' => uniform_compute ctx (id :: active) id'
          obtain ⟨ss, r, hr⟩ := (Uniform.foldl recursion (ctx.pureDependencies n)).comp
            (uniform_assignWith ctx (id :: active) n recursion) e
          refine ⟨ss, r.settle ctx id, fun b a => ?_⟩
          show compute ctx b active id (e.withBlocks a) = _
          rw [compute, if_neg (show ¬(e.withBlocks a).isCurrent ctx id = true from hcur),
            dif_neg hact]
          split
          · next hn' => exact absurd (hn.symm.trans hn') (by simp)
          · next n' hn' =>
            obtain rfl : n = n' := Option.some.inj (hn.symm.trans hn')
            exact (congrArg (·.settle ctx id) (hr b a)).trans
              (Emission.settle_withBlocks r _ ctx id)
termination_by (unlisted ctx.index.nodeIds active).length

/-- Computing a node with no other on the way is uniform too. -/
theorem uniform_computeOnce (ctx : Context) (id : String) :
    Uniform fun b => computeOnce ctx b id := by
  intro e
  obtain ⟨ss, r, hr⟩ := uniform_compute ctx [] id e
  exact ⟨ss, r.endRead, fun b a => congrArg Emission.endRead (hr b a)⟩

/-- **Reading inputs is uniform in the block.** -/
theorem uniform_readInputs (ctx : Context) (n : Node) (params : List String) :
    UniformRead fun b => readInputs ctx n params b :=
  uniform_readAllWith ctx [] n (uniform_computeOnce ctx) params

/-- **Assigning a pure node is uniform in the block.** -/
theorem uniform_assignPure (ctx : Context) (n : Node) : Uniform fun b => assignPure ctx n b :=
  uniform_assignWith ctx [] n (uniform_computeOnce ctx)

/-- Assigns the temporary of a node if it is pure. -/
def ownValue (ctx : Context) (n : Node) (kind : NodeKind) (block : Nat) (e : Emission) :
    Emission :=
  match kind with
  | .pure _ => assignPure ctx n block e
  | _ => e

/-- A node's own value, assigned where control reaches it, is uniform. -/
theorem uniform_ownValue (ctx : Context) (n : Node) (kind : NodeKind) :
    Uniform fun b => ownValue ctx n kind b := by
  cases kind with
  | pure kind => exact uniform_assignPure ctx n
  | _ => exact fun e => ⟨[], e, fun b a => rfl⟩

/-- The comment that announces a node is uniform. -/
theorem uniform_announce (ctx : Context) (n : Node) (d : Definition) (kind : NodeKind) :
    Uniform fun b e => e.announce ctx n d kind b := by
  intro e
  simp only [Emission.announce]
  split
  · exact ⟨[_], _, fun b a => rfl⟩
  · exact ⟨[], e, fun b a => rfl⟩

end Blueprints
