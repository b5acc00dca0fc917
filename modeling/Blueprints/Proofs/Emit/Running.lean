import Blueprints.Program.Function
import Blueprints.Proofs.Emit.Refinement
import Blueprints.Proofs.Emit.Visiting

/-! # Runs of the walk

    A walk comes from stack to stack (`Walking`): it drops a step whose node
    is done or missing, or visits the node and puts the steps to its exits on
    the stack.  A *turn* is the visit of a node of a kind on such a run.

    What one step keeps, every run keeps (`Walking.steady`): the steps on the
    stack are ready, and no variable reader counts as current between two
    visits. -/

namespace Blueprints

open Arena

/-- What the visit of a step leaves. -/
def Step.visited (ctx : Context) (step : Step) (n : Node) (e : Emission) : Visited :=
  visit ctx n step.block (e.onPath (step.path.extend step.node))

/-- The stacks and emissions that a walk comes to. -/
inductive Walking (ctx : Context) (s₀ : List Step) (e₀ : Emission) : List Step → Emission → Prop
  | start : Walking ctx s₀ e₀ s₀ e₀
  | skip {step : Step} {rest : List Step} {e : Emission}
      (h : Walking ctx s₀ e₀ (step :: rest) e)
      (hdone : step.path.contains step.node = true ∨ ctx.index.node? step.node = none) :
      Walking ctx s₀ e₀ rest e
  | visit {step : Step} {rest : List Step} {e : Emission} {n : Node}
      (h : Walking ctx s₀ e₀ (step :: rest) e) (hnew : step.path.contains step.node = false)
      (hn : ctx.index.node? step.node = some n) :
      Walking ctx s₀ e₀ ((step.visited ctx n e).steps ++ rest) (step.visited ctx n e).2

section Runs

variable {ctx : Context} {s₀ s : List Step} {e₀ e : Emission}

/-- A walk comes to its end. -/
theorem Walking.finish (h : Walking ctx s₀ e₀ s e) : Walking ctx s₀ e₀ [] (walk ctx s e) := by
  fun_induction walk ctx s e with
  | case1 e => exact h
  | case2 e step rest hdone ih => exact ih (h.skip (Or.inl hdone))
  | case3 e step rest hnew hnone ih => exact ih (h.skip (Or.inr hnone))
  | case4 e step rest hnew n hn visited ih =>
      exact ih (h.visit (Bool.eq_false_iff.2 hnew) hn)

/-- A run does not change what the walk leaves. -/
theorem Walking.walk_eq (h : Walking ctx s₀ e₀ s e) : walk ctx s e = walk ctx s₀ e₀ := by
  induction h with
  | start => rfl
  | skip _ hdone ih =>
      rw [← ih]
      exact (walk_cons_of_done hdone _ _ _).symm
  | visit _ hnew hn ih =>
      rw [← ih]
      exact (walk_cons_of_new (Bool.eq_false_iff.1 hnew) hn _ _ _).symm

/-- A run goes on from where another one has come to. -/
theorem Walking.trans {s' : List Step} {e' : Emission} (h : Walking ctx s₀ e₀ s e)
    (h' : Walking ctx s e s' e') : Walking ctx s₀ e₀ s' e' := by
  induction h' with
  | start => exact h
  | skip _ hdone ih => exact ih.skip hdone
  | visit _ hnew hn ih => exact ih.visit hnew hn

/-- A run over the first steps of a stack is a run over the whole stack. -/
theorem Walking.append (h : Walking ctx s₀ e₀ s e) (others : List Step) :
    Walking ctx (s₀ ++ others) e₀ (s ++ others) e := by
  induction h with
  | start => exact .start
  | skip _ hdone ih => exact ih.skip hdone
  | visit _ hnew hn ih =>
      rw [List.append_assoc]
      exact ih.visit hnew hn

/-- A run goes on by the only exit of a visit. -/
theorem Walking.next {step : Step} {n : Node} {x : Exit} (h : Walking ctx s₀ e₀ [step] e)
    (hnew : step.path.contains step.node = false) (hn : ctx.index.node? step.node = some n)
    (hexits : (step.visited ctx n e).1 = [x]) :
    Walking ctx s₀ e₀ [⟨x.node, (step.visited ctx n e).2.path, x.block⟩]
      (step.visited ctx n e).2 := by
  have hvisit := h.visit hnew hn
  rw [Visited.steps, hexits] at hvisit
  exact hvisit

end Runs

/-! ## Turns -/

/-- A visit of a node of a kind, on a run. -/
structure Turn (ctx : Context) (s₀ : List Step) (e₀ : Emission) where
  step : Step
  rest : List Step
  before : Emission
  node : Node
  definition : Definition
  kind : NodeKind
  running : Walking ctx s₀ e₀ (step :: rest) before
  new : step.path.contains step.node = false
  found : ctx.index.node? step.node = some node
  known : ctx.definition? node = some definition
  ofKind : NodeKind.ofDefinition? definition.id = some kind

namespace Turn

variable {ctx : Context} {s₀ : List Step} {e₀ : Emission}

/-- The emission from which the inputs of the node are read. -/
def arrived (t : Turn ctx s₀ e₀) : Emission :=
  (t.before.onPath (t.step.path.extend t.step.node)).announce ctx t.node t.definition t.kind
    t.step.block

/-- The inputs of the node. -/
def inputs (t : Turn ctx s₀ e₀) : List String := t.kind.inputs ctx t.node

/-- The emission after some inputs have been read. -/
def reading (t : Turn ctx s₀ e₀) (params : List String) : Emission :=
  (readInputs ctx t.node params t.step.block t.arrived).2

/-- The operands of the inputs. -/
def operand (t : Turn ctx s₀ e₀) : String → Operand :=
  operandOf (readInputs ctx t.node t.inputs t.step.block t.arrived).1

/-- The statement of the node. -/
def statement? (t : Turn ctx s₀ e₀) : Option Statement :=
  t.kind.statement? ctx t.node t.definition t.operand

/-- The place of the statement of the node in its block: behind all that its
    inputs need. -/
def place (t : Turn ctx s₀ e₀) : Nat := ((t.reading t.inputs).blocks.body t.step.block).length

/-- The emission with the statement of the node. -/
def stated (t : Turn ctx s₀ e₀) : Emission :=
  (t.reading t.inputs).withBlocks
    ((t.reading t.inputs).blocks.lines t.step.block t.statement?.toList)

/-- What the turn leaves. -/
def visited (t : Turn ctx s₀ e₀) : Visited := t.step.visited ctx t.node t.before

theorem operand_eq (t : Turn ctx s₀ e₀) {slot : String} (hslot : slot ∈ t.inputs) :
    t.operand slot = (ctx.source t.node slot).operand := by
  rw [operand, readInputs, fst_readAllWith, operandOf_eq ctx hslot]

/-- Ahead of the reads of a turn stands a comment at most. -/
theorem quietly_arrived (t : Turn ctx s₀ e₀) :
    t.before.blocks.Quietly t.step.block t.arrived.blocks :=
  quietly_announce (t.before.onPath (t.step.path.extend t.step.node)) ctx t.node t.definition t.kind
    t.step.block

/-- The node of a turn, as a pure node. -/
theorem eq_of_pureNode (t : Turn ctx s₀ e₀) (p : PureNode ctx t.step.node) :
    t.kind = .pure p.kind
      ∧ ctx.result? t.node t.definition = some (p.temporary, p.type) := by
  have hnode : p.node = t.node := Option.some.inj (p.found.symm.trans t.found)
  have hdefinition : p.definition = t.definition :=
    Option.some.inj (p.known.symm.trans (hnode ▸ t.known))
  refine ⟨Option.some.inj (t.ofKind.symm.trans (hdefinition ▸ p.pure)), ?_⟩
  rw [← hnode, ← hdefinition]
  exact p.result

/-- The statement of a pure node assigns its temporary. -/
theorem statement?_of_holds (t : Turn ctx s₀ e₀) {name : String}
    (hholds : ctx.Holds name t.step.node) :
    ∃ value, t.statement? = some (.assign name value) := by
  obtain ⟨p, rfl⟩ := hholds
  obtain ⟨hkind, hresult⟩ := t.eq_of_pureNode p
  refine ⟨p.kind.expr ctx t.node t.definition t.operand, ?_⟩
  rw [statement?, hkind, NodeKind.statement?, hresult]
  rfl

/-- The statement of a turn uses every input that it reads. -/
theorem exists_statement? (complete : ctx.Complete) (t : Turn ctx s₀ e₀) {slot : String}
    (hslot : slot ∈ t.inputs) :
    ∃ s, t.statement? = some s ∧ (ctx.source t.node slot).operand ∈ s.operands := by
  rw [← t.operand_eq hslot]
  refine NodeKind.exists_statement?_of_input hslot fun k hk => ?_
  obtain ⟨p⟩ := complete.pureNode (isPure_of_kind t.found t.known (hk ▸ t.ofKind))
  obtain ⟨-, hresult⟩ := t.eq_of_pureNode p
  rw [hresult]
  exact Option.some_ne_none _

/-- A turn reads, and then writes the statements of its kind. -/
theorem visited_eq_visitKind (t : Turn ctx s₀ e₀) :
    t.visited = visitKind ctx t.node t.definition t.kind
      (operandOf (readInputs ctx t.node (t.kind.slots ctx t.node) t.step.block t.arrived).1)
      t.step.block (readInputs ctx t.node (t.kind.slots ctx t.node) t.step.block t.arrived).2 := by
  rw [visited, Step.visited, visit, t.known]
  dsimp only
  rw [t.ofKind]
  rfl

/-- The visit of a turn, read off its phases. -/
theorem goesOn (complete : ctx.Complete) (t : Turn ctx s₀ e₀) {root : Nat} {base ids : List String}
    (h : Ready ctx root base t.stated.blocks ids t.step.block) :
    GoesOn ctx root base ids t.step.block t.stated t.visited := by
  by_cases hkind : ∃ k, t.kind = .pure k
  · obtain ⟨k, hk⟩ := hkind
    obtain ⟨p⟩ := complete.pureNode (isPure_of_kind t.found t.known (hk ▸ t.ofKind))
    obtain ⟨hkind, hresult⟩ := t.eq_of_pureNode p
    -- nothing is read ahead of the assignment, which reads the inputs itself
    have hassign : assignPure ctx t.node t.step.block t.arrived
        = ((t.reading t.inputs).declare p.temporary p.type).emit t.step.block
          (.assign p.temporary (p.kind.expr ctx t.node t.definition t.operand)) := by
      rw [reading, operand, inputs, hkind, assignPure, assignWith, t.known]
      dsimp only
      rw [t.ofKind, hkind, hresult]
      rfl
    have hstated : t.stated.blocks = (assignPure ctx t.node t.step.block t.arrived).blocks := by
      rw [hassign, Emission.blocks_emit, Emission.blocks_declare, stated, statement?, hkind,
        NodeKind.statement?, hresult]
      rfl
    rw [hstated] at h
    have hgo := goesOn_goOn (ctx.index.execLeaving t.node t.definition) h
    have heq : t.visited = follow ctx t.node t.definition t.step.block
        (assignPure ctx t.node t.step.block t.arrived) := by
      rw [t.visited_eq_visitKind, hkind]
      rfl
    rw [heq]
    refine hgo.agrees ⟨hstated.symm, ?_, ?_⟩
    · rw [hassign]
      rfl
    · rw [hassign]
      rfl
  · have hkind : ∀ k, t.kind ≠ .pure k := fun k hk => hkind ⟨k, hk⟩
    have hinputs : t.inputs = t.kind.slots ctx t.node := by
      rw [inputs]
      cases hk : t.kind with
      | pure k => exact absurd hk (hkind k)
      | _ => rfl
    rw [t.visited_eq_visitKind, ← hinputs]
    exact goesOn_visitKind hkind t.operand h

end Turn

/-- A node of a kind has a definition of that kind. -/
theorem exists_definition_of_kind? {ctx : Context} {n : Node} {kind : NodeKind}
    (h : ctx.catalog.kind? n = some kind) :
    ∃ d, ctx.definition? n = some d ∧ NodeKind.ofDefinition? d.id = some kind := by
  rw [Catalog.kind?] at h
  cases hd : ctx.catalog.find? n.definitionId with
  | none =>
      rw [hd] at h
      cases h
  | some d =>
      rw [hd] at h
      exact ⟨d, hd, h⟩

/-- To visit a node that has a kind is a turn. -/
theorem Walking.exists_turn {ctx : Context} {s₀ rest : List Step} {e₀ e : Emission} {step : Step}
    {n : Node} {kind : NodeKind} (h : Walking ctx s₀ e₀ (step :: rest) e)
    (hnew : step.path.contains step.node = false) (hn : ctx.index.node? step.node = some n)
    (hkind : ctx.catalog.kind? n = some kind) :
    ∃ t : Turn ctx s₀ e₀, t.step = step ∧ t.rest = rest ∧ t.before = e ∧ t.node = n
      ∧ t.kind = kind := by
  obtain ⟨d, hd, hofKind⟩ := exists_definition_of_kind? hkind
  exact ⟨⟨step, rest, e, n, d, kind, h, hnew, hn, hd, hofKind⟩, rfl, rfl, rfl, rfl, rfl⟩

/-- What holds at the start of a run and is kept by every step of it, be it a
    turn or not, holds throughout. -/
theorem Walking.induction {ctx : Context} {s₀ s : List Step} {e₀ e : Emission}
    {I : List Step → Emission → Prop} (h : Walking ctx s₀ e₀ s e) (start : I s₀ e₀)
    (skip : ∀ {step rest e}, I (step :: rest) e → I rest e)
    (unknown : ∀ {step rest e n}, Walking ctx s₀ e₀ (step :: rest) e → I (step :: rest) e →
      ctx.index.node? step.node = some n → ctx.catalog.kind? n = none →
      I ((step.visited ctx n e).steps ++ rest) (step.visited ctx n e).2)
    (turn : ∀ t : Turn ctx s₀ e₀, I (t.step :: t.rest) t.before →
      I (t.visited.steps ++ t.rest) t.visited.2) : I s e := by
  induction h with
  | start => exact start
  | skip _ _ ih => exact skip ih
  | @visit step rest e n hrun hnew hn ih =>
      cases hkind : ctx.catalog.kind? n with
      | none => exact unknown hrun ih hn hkind
      | some kind =>
          obtain ⟨t, rfl, rfl, rfl, rfl, -⟩ := hrun.exists_turn hnew hn hkind
          exact turn t ih

/-! ## Steady runs -/

/-- The steps on a stack are ready, and no variable reader is current. -/
structure Steady (ctx : Context) (root : Nat) (base : List String) (stack : List Step)
    (e : Emission) : Prop where
  within : root < e.blocks.size
  fresh : e.fresh = []
  ready : ∀ step ∈ stack, Ready ctx root base e.blocks step.path.latest step.block

section Steadiness

variable {ctx : Context} {root : Nat} {base : List String} {s₀ s rest : List Step} {step : Step}
  {e₀ e : Emission}

/-- A visit replaces its step by steps that are ready. -/
theorem Steady.after (h : Steady ctx root base (step :: rest) e) {b : Nat} {start : Emission}
    {v : Visited} (hkeeps : e.blocks.Keeps start.blocks) (hfresh : start.fresh = [])
    (hgo : GoesOn ctx root base start.path.latest b start v) :
    Steady ctx root base (v.steps ++ rest) v.2 := by
  have hkept := hkeeps.trans hgo.quiet.keeps
  refine ⟨Nat.lt_of_lt_of_le h.within hkept.size, hgo.fresh.trans hfresh, fun step' hstep' => ?_⟩
  rcases List.mem_append.1 hstep' with hexit | hrest
  · obtain ⟨x, hx, rfl⟩ := List.mem_map.1 hexit
    show Ready ctx root base v.2.blocks v.2.path.latest x.block
    rw [hgo.path]
    exact hgo.exits x hx
  · exact (h.ready step' (List.mem_cons_of_mem _ hrest)).keeps hkept

/-- A step is ready for its own node too, less what that node assigns. -/
theorem Steady.extend (h : Steady ctx root base (step :: rest) e) :
    Ready ctx root (step.node :: base) (e.onPath (step.path.extend step.node)).blocks
      (step.path.extend step.node).latest step.block := by
  refine (h.ready step (List.mem_cons_self ..)).imp (fun x hx => ?_)
    fun x hx => List.mem_cons_of_mem _ hx
  rcases List.mem_cons.1 hx with rfl | hx
  · exact Or.inr (List.mem_cons_self ..)
  · exact Or.inl hx

namespace Turn

variable (t : Turn ctx s₀ e₀) (h : Steady ctx root base (t.step :: t.rest) t.before)

include h

/-- A turn reads its inputs prepared; the temporary of its own node need not
    be assigned. -/
theorem prepared (complete : ctx.Complete) (params : List String) :
    Prepared ctx root (t.step.node :: base) t.step.block (t.reading params) := by
  have hstart : Prepared ctx root (t.step.node :: base) t.step.block
      (t.before.onPath (t.step.path.extend t.step.node)) := ⟨h.extend, h.fresh⟩
  refine readInputs_induction params (fun param _ e he => ?_)
    (hstart.announce t.node t.definition t.kind)
  obtain ⟨log, hreads⟩ := exists_log_readInput complete t.step.block t.node param he.fresh
  exact he.reads hreads

/-- What a turn does to read one of its inputs. -/
theorem exists_log (complete : ctx.Complete) (params : List String) (param : String) :
    ∃ log, Reads ctx t.step.block t.node param (t.reading params) log
      (t.reading (params ++ [param])) := by
  rw [reading, reading, readInputs_append]
  exact exists_log_readInput complete t.step.block t.node param (t.prepared h complete params).fresh

/-- To read inputs writes assignments, one after the other. -/
theorem exists_lines (complete : ctx.Complete) (params more : List String) :
    ∃ ss : List Statement, (∀ s ∈ ss, ∃ name value, s = .assign name value)
      ∧ (t.reading (params ++ more)).blocks = (t.reading params).blocks.lines t.step.block ss := by
  induction more generalizing params with
  | nil =>
      rw [List.append_nil]
      exact ⟨[], nofun, rfl⟩
  | cons param rest ih =>
      obtain ⟨log, hreads⟩ := t.exists_log h complete params param
      obtain ⟨ss, hassigns, hblocks⟩ := ih (params ++ [param])
      refine ⟨log.statements ++ ss, fun s hs => ?_, ?_⟩
      · rcases List.mem_append.1 hs with hlog | hrest
        · obtain ⟨x, -, name, value, hassign, -⟩ := hreads.valid.assigns hlog
          exact ⟨name, value, hassign⟩
        · exact hassigns s hrest
      · rw [List.append_assoc, List.singleton_append] at hblocks
        rw [hblocks, hreads.blocks, lines_append]

/-- To read more inputs removes nothing. -/
theorem keeps_reading (complete : ctx.Complete) (params more : List String) :
    (t.reading params).blocks.Keeps (t.reading (params ++ more)).blocks := by
  obtain ⟨ss, -, hblocks⟩ := t.exists_lines h complete params more
  rw [hblocks]
  exact keeps_lines ..

/-- A turn writes into its block up to the statement of its node. -/
theorem extends_stated (complete : ctx.Complete) :
    t.before.blocks.Extends t.step.block t.stated.blocks := by
  obtain ⟨ss, -, hblocks⟩ := t.exists_lines h complete [] t.inputs
  rw [List.nil_append] at hblocks
  rw [stated, Emission.blocks_withBlocks, hblocks]
  exact (t.quietly_arrived.toExtends.trans (extends_lines _ _ ss) (Or.inl rfl)).trans
    (extends_lines ..) (Or.inl rfl)

/-- The temporaries that a turn reads from pure nodes are assigned once its
    inputs are read. -/
theorem assigned (complete : ctx.Complete) {param name : String} {output : Endpoint}
    {kind : ParamKind} (hparam : param ∈ t.inputs)
    (hsource : ctx.source t.node param = .temporary name output kind)
    (hholds : ctx.Holds name output.node) :
    (output.node ∈ t.step.node :: base ∧ ctx.isReader output.node = false)
      ∨ (t.reading t.inputs).blocks.AssignedWithin root name t.step.block t.place := by
  obtain ⟨params, more, hsplit⟩ := List.append_of_mem hparam
  obtain ⟨log, hreads⟩ := t.exists_log h complete params param
  have hkeeps := t.keeps_reading h complete (params ++ [param]) more
  rw [List.append_assoc, List.singleton_append, ← hsplit] at hkeeps
  rcases (t.prepared h complete params).assigned hreads hsource hholds with hbase | hassigned
  · exact Or.inl hbase
  · exact Or.inr ((hassigned.keeps hkeeps).mono (hkeeps.length_le _))

/-- The place behind the statement of a turn is ready: the temporary of the
    node is assigned there. -/
theorem ready_stated (complete : ctx.Complete) :
    Ready ctx root base t.stated.blocks t.stated.path.latest t.step.block := by
  have hread := t.prepared h complete t.inputs
  -- the own node is the only one in the base of the reads that is not in ours
  refine Ready.settle (hread.ready.keeps (keeps_lines ..)) fun hholds => ?_
  obtain ⟨value, hstatement⟩ := t.statement?_of_holds hholds
  rw [stated, Emission.blocks_withBlocks, hstatement]
  exact assignedWithin_of_mem_lines hread.ready.within hread.ready.under (List.mem_singleton_self _)

end Turn

/-- The visit of a node that has no kind leaves the steps ready: there is
    nothing to assign for it. -/
theorem Steady.visit_of_unknown (h : Steady ctx root base (step :: rest) e) {n : Node}
    (hn : ctx.index.node? step.node = some n) (hkind : ctx.catalog.kind? n = none) :
    Steady ctx root base ((step.visited ctx n e).steps ++ rest) (step.visited ctx n e).2 := by
  have hready : Ready ctx root base (e.onPath (step.path.extend step.node)).blocks
      (step.path.extend step.node).latest step.block := by
    refine Ready.settle h.extend fun hholds => ?_
    obtain ⟨p, -⟩ := hholds
    obtain rfl : p.node = n := Option.some.inj (p.found.symm.trans hn)
    have hfind : ctx.catalog.find? p.node.definitionId = some p.definition := p.known
    rw [Catalog.kind?, hfind] at hkind
    dsimp only at hkind
    rw [p.pure] at hkind
    cases hkind
  exact h.after (.refl (e.onPath (step.path.extend step.node)).blocks) h.fresh
    (goesOn_visit_of_unknown hkind hready)

/-- **A run stays steady.** -/
theorem Walking.steady (complete : ctx.Complete) (h : Walking ctx s₀ e₀ s e)
    (h₀ : Steady ctx root base s₀ e₀) : Steady ctx root base s e := by
  refine h.induction h₀ (fun ih => ?_) (fun _ ih hn hkind => ih.visit_of_unknown hn hkind)
    fun t ih => ?_
  · exact ⟨ih.within, ih.fresh, fun step hstep => ih.ready step (List.mem_cons_of_mem _ hstep)⟩
  · exact ih.after (t.extends_stated ih complete).keeps (t.prepared ih complete t.inputs).fresh
      (t.goesOn complete (t.ready_stated ih complete))

/-- What holds of the blocks at the start of a run and is kept by writing into
    one of them and into new ones holds throughout. -/
theorem Walking.blocks_induction (complete : ctx.Complete) {P : Arena Statement → Prop}
    (h : Walking ctx s₀ e₀ s e) (h₀ : Steady ctx root base s₀ e₀) (start : P e₀.blocks)
    (step : ∀ {a a' : Arena Statement} {b : Nat}, e₀.blocks.Keeps a → a.Extends b a' → P a → P a') :
    e₀.blocks.Keeps e.blocks ∧ P e.blocks := by
  refine h.induction (I := fun _ e => e₀.blocks.Keeps e.blocks ∧ P e.blocks) ⟨.refl _, start⟩ id
    ?_ ?_
  · intro _ _ _ _ hrun ⟨hkeeps, ih⟩ _ hkind
    have hquiet := (goesOn_visit_of_unknown hkind (hrun.steady complete h₀).extend).quiet
    exact ⟨hkeeps.trans hquiet.keeps, step hkeeps hquiet.toExtends ih⟩
  · intro t ⟨hkeeps, ih⟩
    -- a turn writes up to its statement, and quietly behind it
    have hsteady := t.running.steady complete h₀
    have hquiet := (t.goesOn complete (t.ready_stated hsteady complete)).quiet
    have hext := (t.extends_stated hsteady complete).trans hquiet.toExtends (Or.inl rfl)
    exact ⟨hkeeps.trans hext.keeps, step hkeeps hext ih⟩

/-- Nothing that is written is lost. -/
theorem Walking.keeps (complete : ctx.Complete) (h : Walking ctx s₀ e₀ s e)
    (h₀ : Steady ctx root base s₀ e₀) : e₀.blocks.Keeps e.blocks :=
  (h.blocks_induction complete (P := fun _ => True) h₀ trivial fun _ _ _ => trivial).1

/-- What a turn leaves stands in the finished routine. -/
theorem Turn.keeps_walk (complete : ctx.Complete) (t : Turn ctx s₀ e₀)
    (h₀ : Steady ctx root base s₀ e₀) : t.visited.2.blocks.Keeps (walk ctx s₀ e₀).blocks := by
  have hvisit := t.running.visit t.new t.found
  rw [← hvisit.walk_eq]
  exact Walking.start.finish.keeps complete (hvisit.steady complete h₀)

/-- What a turn has written up to its statement stands there too. -/
theorem Turn.stated_keeps_walk (complete : ctx.Complete) (t : Turn ctx s₀ e₀)
    (h₀ : Steady ctx root base s₀ e₀) : t.stated.blocks.Keeps (walk ctx s₀ e₀).blocks := by
  have hsteady := t.running.steady complete h₀
  have hquiet := (t.goesOn complete (t.ready_stated hsteady complete)).quiet
  exact hquiet.keeps.trans (t.keeps_walk complete h₀)

end Steadiness

/-! ## Whole routines -/

/-- At the root, on a path with no node on it, everything is ready. -/
theorem ready_root (ctx : Context) {a : Arena Statement} (hroot : Arena.root < a.size) :
    Ready ctx Arena.root [] a [] Arena.root :=
  ⟨hroot, .refl, fun hx => absurd hx List.not_mem_nil⟩

/-- A routine starts with blocks for its entries. -/
theorem goesOn_entries (ctx : Context) (entries : List Node) (findings : Findings) :
    GoesOn ctx Arena.root [] [] Arena.root { findings }
      (spread Arena.root (entries.map leadingTo) { findings }) :=
  goesOn_spread _ (ready_root ctx Nat.zero_lt_one)

/-- A routine starts steady. -/
theorem steady_entrySteps (ctx : Context) (entries : List Node) (findings : Findings) :
    Steady ctx Arena.root [] (entrySteps entries { findings }).1
      (entrySteps entries { findings }).2 := by
  have hgo := goesOn_entries ctx entries findings
  rw [entrySteps_eq]
  refine ⟨Nat.lt_of_lt_of_le Nat.zero_lt_one hgo.quiet.keeps.size, hgo.fresh, fun step hstep => ?_⟩
  obtain ⟨x, hx, rfl⟩ := List.mem_map.1 hstep
  exact hgo.exits x hx

/-- **A routine is steady to its end.** -/
theorem steady_writeRoutine {ctx : Context} (complete : ctx.Complete) (entries : List Node)
    (findings : Findings) : Steady ctx Arena.root [] [] (writeRoutine ctx entries findings) :=
  Walking.start.finish.steady complete (steady_entrySteps ctx entries findings)

/-- So is the body of a function, also where nothing starts it. -/
theorem steady_writeFunctionBody {ctx : Context} (complete : ctx.Complete) :
    Steady ctx Arena.root [] [] (writeFunctionBody ctx) := by
  rw [writeFunctionBody]
  split
  · exact ⟨Nat.zero_lt_one, rfl, nofun⟩
  · exact steady_writeRoutine complete _ _

/-- The emission from which a return node reads its value, at the end of a
    routine. -/
def beforeReturn (ctx : Context) (n : Node) (e : Emission) : Emission :=
  let count := (ctx.nodesOfKind .functionReturn).length
  let e :=
    if count > 1 then
      e.report .shapeAmbiguity n.id s!"blueprint has {count} return nodes; only '{n.id}' is used"
    else e
  (if e.routine.blocks.isEmpty Arena.root then e else e.emit Arena.root .blank).onPath .empty

section Returning

variable {ctx : Context} {n : Node} {e : Emission}

/-- A return that has a value to give back. -/
theorem writeReturn_of_value (hn : returnNode? ctx e.routine = some n)
    (hvalue : (ctx.source n "value").type? ≠ none) :
    (writeReturn ctx e).2
      = (readInput ctx n "value" Arena.root (beforeReturn ctx n e)).2.emit Arena.root
        (.giveBack (readInput ctx n "value" Arena.root (beforeReturn ctx n e)).1) := by
  rw [writeReturn, hn]
  dsimp only
  cases htype : (ctx.source n "value").type? with
  | none => exact absurd htype hvalue
  | some type => rfl

/-- A function is ended as it is, or with a value that is given back. -/
theorem writeReturn_cases (ctx : Context) (e : Emission) :
    (writeReturn ctx e).2.blocks = e.blocks
      ∨ ∃ n, returnNode? ctx e.routine = some n ∧ (ctx.source n "value").type? ≠ none := by
  cases hn : returnNode? ctx e.routine with
  | none =>
      rw [writeReturn, hn]
      exact Or.inl rfl
  | some n =>
      cases htype : (ctx.source n "value").type? with
      | none =>
          rw [writeReturn, hn]
          dsimp only
          rw [htype]
          refine Or.inl ?_
          dsimp only
          split
          · rfl
          · rfl
      | some type => exact Or.inr ⟨n, rfl, by rw [htype]; exact Option.some_ne_none type⟩

/-- A report and an empty line are all that comes ahead of a return. -/
theorem quietly_beforeReturn (ctx : Context) (n : Node) (e : Emission) :
    e.blocks.Quietly Arena.root (beforeReturn ctx n e).blocks
      ∧ (beforeReturn ctx n e).fresh = e.fresh := by
  rw [beforeReturn]
  generalize hreported : (if (ctx.nodesOfKind .functionReturn).length > 1 then e.report _ n.id _
    else e) = reported
  have hagrees : Agrees e reported := by
    rw [← hreported]
    split
    · exact agrees_report ..
    · exact .refl e
  rw [← hagrees.blocks, ← hagrees.fresh]
  split
  · exact ⟨.refl _ _, rfl⟩
  · exact ⟨quietly_line reported.blocks _ rfl, rfl⟩

/-- A routine that is written can be ended by a read at its root. -/
theorem Steady.prepared_return (h : Steady ctx Arena.root [] [] e) (n : Node) :
    Prepared ctx Arena.root [] Arena.root (beforeReturn ctx n e) := by
  obtain ⟨hquiet, hfresh⟩ := quietly_beforeReturn ctx n e
  exact ⟨ready_root ctx (Nat.lt_of_lt_of_le h.within hquiet.keeps.size), hfresh.trans h.fresh⟩

end Returning

end Blueprints
