import Blueprints.Program.Component
import Blueprints.Proofs.Emit.Running

/-! # Assignment dominates use

    Where the pure nodes of a blueprint depend on each other in no circle,
    a temporary of a pure node is assigned before every statement that reads
    it, wherever control comes from.

    The invariant is that this holds of the lines that are written already
    (`Dominated`).  A line that holds no temporary keeps it; so does the log
    of a computation, whose entries come after what they depend on
    (`Dominated.log`), and the statement of a node, whose inputs have been
    read (`Turn.dominated`). -/

namespace Blueprints

open Arena Relation

/-! ## Dominated lines -/

/-- An assignment to a temporary stands before a place. -/
def Arena.AssignedBefore (a : Arena Statement) (t : String) (x i : Nat) : Prop :=
  ∃ c j value, (a.body c)[j]? = some (.line (.assign t value)) ∧ a.Before c j x i

/-- Every line that reads the temporary of a pure node stands behind an
    assignment to it. -/
def Dominated (ctx : Context) (a : Arena Statement) : Prop :=
  ∀ ⦃x i : Nat⦄ ⦃s : Statement⦄ ⦃t p : String⦄, (a.body x)[i]? = some (.line s) →
    .temporary t ∈ s.operands → ctx.Holds t p → a.AssignedBefore t x i

section Lines

variable {ctx : Context} {a a' : Arena Statement} {root b : Nat} {base : List String}

/-- What is assigned before a place in a block is assigned before it. -/
theorem Arena.AssignedWithin.before {t : String} {x i : Nat} (h : a.AssignedWithin root t x i) :
    a.AssignedBefore t x i := by
  obtain ⟨c, j, value, hline, -, hbefore⟩ := h
  exact ⟨c, j, value, hline, hbefore⟩

theorem Arena.AssignedBefore.keeps {t : String} {x i : Nat} (h : a.AssignedBefore t x i)
    (hkeeps : a.Keeps a') : a'.AssignedBefore t x i := by
  obtain ⟨c, j, value, hline, hbefore⟩ := h
  exact ⟨c, j, value, hkeeps.body hline, hbefore.keeps hkeeps⟩

/-- With no line there is nothing to dominate. -/
theorem dominated_new (ctx : Context) : Dominated ctx .new := by
  intro x i s t p hline
  rw [body_new] at hline
  exact nomatch hline

/-- Lines without temporaries need no assignment. -/
theorem Dominated.quietly (h : Dominated ctx a) (hquiet : a.Quietly b a') : Dominated ctx a' := by
  intro x i s t p hline huse hholds
  rcases hquiet.lines hline with hold | hbare
  · exact (h hold huse hholds).keeps hquiet.keeps
  · rw [Statement.operands_of_isBare hbare] at huse
    exact absurd huse List.not_mem_nil

/-- A line keeps the lines dominated if what it reads is assigned at the end
    of its block. -/
theorem Dominated.line (h : Dominated ctx a) {s : Statement}
    (hs : ∀ {t p : String}, .temporary t ∈ s.operands → ctx.Holds t p →
      a.AssignedBefore t b (a.body b).length) : Dominated ctx (a.line b s) := by
  intro x i s' t p hline huse hholds
  rcases getElem?_line_cases hline with hold | ⟨rfl, rfl, hnew⟩
  · exact (h hold huse hholds).keeps (keeps_line a b s)
  · obtain rfl := Item.line.inj hnew
    exact (hs huse hholds).keeps (keeps_line ..)

/-- **A log keeps the lines dominated.**  The induction is along the log: each
    of its nodes is assigned once its entry is written. -/
theorem Dominated.log (complete : ctx.Complete) (acyclic : ctx.Acyclic)
    {reach cur : String → Prop} {log : Log} (hvalid : log.Valid ctx [] reach cur)
    (h : Dominated ctx a) (hb : b < a.size) (hunder : a.Under root b)
    (hcur : ∀ {y t : String}, cur y → ctx.Holds t y →
      y ∈ base ∨ a.AssignedWithin root t b (a.body b).length)
    (hbase : ∀ {x y : String}, reach x → y ∈ base → ¬ctx.DependsOn x y) :
    Dominated ctx (a.lines b log.statements) := by
  induction log generalizing a cur with
  | nil => exact h
  | cons entry rest ih =>
      obtain ⟨x, s⟩ := entry
      obtain ⟨hentry, hrest⟩ := hvalid
      obtain ⟨p, value, rfl, hoperands⟩ := hentry.assigns
      have hkeeps := keeps_line a b (.assign p.temporary value)
      refine ih hrest (h.line ?_) (Nat.lt_of_lt_of_le hb hkeeps.size) (hunder.keeps hkeeps) ?_
      · -- what the entry reads, it depends on, and that is assigned
        intro t q huse hholds
        obtain ⟨slot, hslot, hoperand⟩ := hoperands _ huse
        obtain ⟨output, kind, hsource, rfl⟩ :=
          source_of_operand complete hoperand.symm hholds
        obtain ⟨q, rfl⟩ := hholds
        have hdepends : ctx.DependsOn x output.node :=
          ⟨p.node, p.found, p.dependsOn complete hslot hsource q.isPure⟩
        rcases hentry.dependencies output.node hdepends with hdone | hact | hback
        · rcases hcur hdone ⟨q, rfl⟩ with hmem | hassigned
          · exact absurd hdepends (hbase hentry.reached hmem)
          · exact hassigned.before
        · exact absurd hact List.not_mem_nil
        · exact absurd (TransGen.head' hdepends hback) (acyclic x)
      · intro y t hy hholds
        rcases hy with hy | rfl
        · rcases hcur hy hholds with hmem | hassigned
          · exact Or.inl hmem
          · exact Or.inr ((hassigned.keeps hkeeps).mono (hkeeps.length_le b))
        · obtain ⟨q, rfl⟩ := hholds
          rw [q.temporary_eq p]
          exact Or.inr (assignedWithin_of_mem_lines hb hunder (List.mem_singleton_self _))

end Lines

/-! ## Turns -/

section Turns

variable {ctx : Context} {s₀ : List Step} {e₀ : Emission} {root : Nat}

/-- The node of a turn, if it is pure, depends on what the turn reads. -/
theorem Turn.dependsOn (t : Turn ctx s₀ e₀) (complete : ctx.Complete)
    (hown : ctx.index.isPure ctx.catalog t.step.node = true) {param name : String}
    {output : Endpoint} {kind : ParamKind} (hparam : param ∈ t.inputs)
    (hsource : ctx.source t.node param = .temporary name output kind)
    (hpure : ctx.index.isPure ctx.catalog output.node = true) :
    ctx.DependsOn t.step.node output.node := by
  obtain ⟨p⟩ := complete.pureNode hown
  obtain ⟨hkind, -⟩ := t.eq_of_pureNode p
  have hnode : p.node = t.node := Option.some.inj (p.found.symm.trans t.found)
  rw [inputs, hkind] at hparam
  rw [← hnode] at hsource
  exact ⟨p.node, p.found, p.dependsOn complete hparam hsource hpure⟩

/-- What a turn reads from does not depend on the node of the turn. -/
theorem Turn.not_dependsOn (t : Turn ctx s₀ e₀) (complete : ctx.Complete) (acyclic : ctx.Acyclic)
    {param x : String} (hparam : param ∈ t.inputs) (hx : ctx.Feeds t.node param x) :
    ¬ctx.DependsOn x t.step.node := by
  intro hback
  obtain ⟨name, output, kind, hsource, hpure, hreach⟩ := hx
  obtain ⟨n, hn, hmem⟩ := id hback
  obtain ⟨d, hd, hown, hfeeding⟩ := mem_pureDependencies.1 hmem
  have hfirst := t.dependsOn complete hown hparam hsource hpure
  exact acyclic _ ((TransGen.head' hfirst hreach).tail hback)

/-- Reading an input keeps the lines dominated. -/
theorem Dominated.reads {e r : Emission} {base : List String} {b : Nat} {n : Node}
    {param : String} {log : Log} (complete : ctx.Complete) (acyclic : ctx.Acyclic)
    (h : Dominated ctx e.blocks) (hprepared : Prepared ctx root base b e)
    (hreads : Reads ctx b n param e log r)
    (hbase : ∀ {x y : String}, ctx.Feeds n param x → y ∈ base → ¬ctx.DependsOn x y) :
    Dominated ctx r.blocks := by
  rw [hreads.blocks]
  exact h.log complete acyclic hreads.valid hprepared.ready.within hprepared.ready.under
    (fun hcur hholds => hprepared.assigned_of_isCurrent hcur hholds) hbase

/-- A turn keeps the lines dominated up to its statement. -/
theorem Turn.dominated_stated (t : Turn ctx s₀ e₀)
    (h : Steady ctx root [] (t.step :: t.rest) t.before) (complete : ctx.Complete)
    (acyclic : ctx.Acyclic) (hlines : Dominated ctx t.before.blocks) :
    Dominated ctx t.stated.blocks := by
  have hread : Dominated ctx (t.reading t.inputs).blocks
      ∧ Prepared ctx root [t.step.node] t.step.block (t.reading t.inputs) := by
    refine readInputs_induction (P := fun e => Dominated ctx e.blocks
      ∧ Prepared ctx root [t.step.node] t.step.block e) t.inputs (fun param hparam e he => ?_)
      ⟨hlines.quietly t.quietly_arrived, t.prepared h complete []⟩
    obtain ⟨log, hreads⟩ := exists_log_readInput complete t.step.block t.node param he.2.fresh
    refine ⟨he.1.reads complete acyclic he.2 hreads fun hx hy => ?_, he.2.reads hreads⟩
    obtain rfl := List.mem_singleton.1 hy
    exact t.not_dependsOn complete acyclic hparam hx
  rw [stated, Emission.blocks_withBlocks]
  cases hs : t.statement? with
  | none => exact hread.1
  | some s =>
      refine hread.1.line fun {name q} huse hholds => ?_
      rcases NodeKind.mem_operands_statement? hs huse with ⟨slot, hslot, hoperand⟩ | ⟨v, hv⟩
      · rw [t.operand_eq hslot] at hoperand
        obtain ⟨output, kind, hsource, rfl⟩ := source_of_operand complete hoperand.symm hholds
        rcases t.assigned h complete hslot hsource hholds with ⟨hown, -⟩ | hassigned
        · -- the node would read its own value
          obtain ⟨q, rfl⟩ := hholds
          obtain hown := List.mem_singleton.1 hown
          have hdepends := t.dependsOn complete (hown ▸ q.isPure) hslot hsource q.isPure
          rw [hown] at hdepends
          exact absurd (.single hdepends) (acyclic _)
        · exact hassigned.before
      · cases hv

/-- **The lines of a run stay dominated.** -/
theorem Walking.dominated (complete : ctx.Complete) (acyclic : ctx.Acyclic) {s : List Step}
    {e : Emission} (h : Walking ctx s₀ e₀ s e) (h₀ : Steady ctx root [] s₀ e₀)
    (hlines : Dominated ctx e₀.blocks) : Dominated ctx e.blocks := by
  refine h.induction (I := fun s e => Dominated ctx e.blocks) hlines id ?_ ?_
  · intro step rest e n hrun ih hn hkind
    have hsteady := hrun.steady complete h₀
    exact ih.quietly (goesOn_visit_of_unknown hkind hsteady.extend).quiet
  · intro t ih
    have hsteady := t.running.steady complete h₀
    exact (t.dominated_stated hsteady complete acyclic ih).quietly
      (t.goesOn complete (t.ready_stated hsteady complete)).quiet

end Turns

/-! ## Routines -/

section Routines

variable {ctx : Context}

/-- **A routine is dominated** from its start to the end of its walk. -/
theorem dominated_writeRoutine (complete : ctx.Complete) (acyclic : ctx.Acyclic)
    (entries : List Node) (findings : Findings) :
    Dominated ctx (writeRoutine ctx entries findings).blocks := by
  have hstart := steady_entrySteps ctx entries findings
  refine Walking.start.finish.dominated complete acyclic hstart ?_
  rw [entrySteps_eq]
  exact (dominated_new ctx).quietly (goesOn_entries ctx entries findings).quiet

/-- The body of a function is dominated, also where nothing starts it. -/
theorem dominated_writeFunctionBody (complete : ctx.Complete) (acyclic : ctx.Acyclic) :
    Dominated ctx (writeFunctionBody ctx).blocks := by
  rw [writeFunctionBody]
  split
  · exact (dominated_new ctx).quietly (quietly_line _ _ rfl)
  · exact dominated_writeRoutine complete acyclic _ _

/-- The return at the end of a function keeps the lines dominated. -/
theorem Dominated.writeReturn (complete : ctx.Complete) (acyclic : ctx.Acyclic) {e : Emission}
    (h : Dominated ctx e.blocks) (hsteady : Steady ctx Arena.root [] [] e) :
    Dominated ctx (writeReturn ctx e).2.blocks := by
  rcases writeReturn_cases ctx e with hsame | ⟨n, hn, hvalue⟩
  · rw [hsame]
    exact h
  · have hprepared := hsteady.prepared_return n
    obtain ⟨log, hreads⟩ := exists_log_readInput complete Arena.root n "value" hprepared.fresh
    have hread := (h.quietly (quietly_beforeReturn ctx n e).1).reads complete acyclic hprepared
      hreads fun _ hy => absurd hy List.not_mem_nil
    rw [writeReturn_of_value hn hvalue, Emission.blocks_emit]
    refine hread.line fun {t q} huse hholds => ?_
    rw [readInput, fst_readWith] at huse
    obtain ⟨output, kind, hsource, rfl⟩ :=
      source_of_operand complete (List.mem_singleton.1 huse).symm hholds
    rcases hprepared.assigned hreads hsource hholds with ⟨hbase, -⟩ | hassigned
    · exact absurd hbase List.not_mem_nil
    · exact hassigned.before

/-- Each method is dominated. By induction on the hooks. -/
theorem dominated_writeMethods (complete : ctx.Complete) (acyclic : ctx.Acyclic)
    (hooks : List Hook) (f : Findings) {m : Method} (hm : m ∈ (writeMethods ctx hooks f).1) :
    Dominated ctx m.routine.blocks := by
  induction hooks generalizing f with
  | nil => exact absurd hm List.not_mem_nil
  | cons hook rest ih =>
      rw [writeMethods] at hm
      split at hm
      · exact ih _ hm
      · rcases List.mem_cons.1 hm with rfl | hm
        · exact dominated_writeRoutine complete acyclic _ _
        · exact ih _ hm

/-- The routines that are generated for a blueprint: the function that it is,
    or the methods of the component that it is. -/
inductive Context.Generates (ctx : Context) : Routine → Prop where
  | function : Generates ctx (FunctionUnit.build ctx).routine
  | method {m : Method} (hm : m ∈ (ComponentUnit.build ctx).methods) : Generates ctx m.routine

/-- **Assignment dominates use.**  If the pure nodes of a blueprint depend on
    each other in no circle, every statement of every generated routine that
    reads the temporary of a pure node stands behind an assignment to it:
    later in the same block, or in a block that is put later, at any depth. -/
theorem assignment_dominates_use (b : Blueprint) (options : Options) (r : Routine) :
    let ctx := Context.of b .builtin options
    ctx.Acyclic → ctx.Generates r →
    ∀ (x i : Nat) (s : Statement) (t id : String),
      (r.blocks.body x)[i]? = some (.line s) → .temporary t ∈ s.operands →
      ctx.index.isPure ctx.catalog id = true → ctx.temporary? id = some t →
      r.blocks.AssignedBefore t x i := by
  intro ctx acyclic hr x i s t id hline huse hpure ht
  have complete := complete_builtin b options
  have hlines : Dominated ctx r.blocks := by
    cases hr with
    | function =>
        exact (dominated_writeFunctionBody complete acyclic).writeReturn complete acyclic
          (steady_writeFunctionBody complete)
    | method hm =>
        exact dominated_writeMethods complete acyclic Hook.all (danglingReports ctx) hm
  exact hlines hline huse (complete.holds hpure ht)

/-! ### A sum that is compared and printed -/

namespace ComparedSum

/-- A sum that is compared ahead of a branch and printed in it. -/
def blueprint : Blueprint where
  kind := .function
  nodes := [⟨"start", "function_start", "", {}, [], []⟩, ⟨"fork", "if_condition", "", {}, [], []⟩,
    ⟨"show", "print", "", {}, [], []⟩,
    ⟨"sum", "add_numbers", "", {}, [("a", .int 1), ("b", .int 2)], []⟩,
    ⟨"more", "compare_greater", "", {}, [("b", .int 2)], []⟩]
  connections := [⟨"c1", ⟨"start", "exec"⟩, ⟨"fork", "exec"⟩⟩,
    ⟨"c2", ⟨"fork", "true"⟩, ⟨"show", "exec"⟩⟩, ⟨"c3", ⟨"sum", "result"⟩, ⟨"more", "a"⟩⟩,
    ⟨"c4", ⟨"more", "result"⟩, ⟨"fork", "condition"⟩⟩,
    ⟨"c5", ⟨"sum", "result"⟩, ⟨"show", "value"⟩⟩]

/-- What the blueprint is written as, by evaluation. -/
theorem sum_printed_in_branch :
    (∀ n ∈ blueprint.nodes, ∀ y ∈ (Context.of blueprint .builtin {}).pureDependencies n,
      ["sum", "more", "fork", "show"].idxOf y < ["sum", "more", "fork", "show"].idxOf n.id)
    ∧ ((FunctionUnit.build (.of blueprint .builtin {})).routine.blocks.body 2)[1]?
      = some (.line (.log (.temporary "add_3_result")))
    ∧ (Context.of blueprint .builtin {}).index.isPure (Context.of blueprint .builtin {}).catalog
      "sum" = true
    ∧ (Context.of blueprint .builtin {}).temporary? "sum" = some "add_3_result" := by
  decide +kernel

/-- The sum is assigned before it is printed, in the block around the branch. -/
theorem assigned_before_print :
    ((FunctionUnit.build (.of blueprint .builtin {})).routine.blocks.body 2)[1]?
        = some (.line (.log (.temporary "add_3_result")))
      ∧ (FunctionUnit.build (.of blueprint .builtin {})).routine.blocks.AssignedBefore
        "add_3_result" 2 1 := by
  obtain ⟨hrank, hline, hpure, htemporary⟩ := sum_printed_in_branch
  have acyclic : (Context.of blueprint .builtin {}).Acyclic :=
    Context.acyclic_of_rank _ hrank fun hn =>
      ⟨Index.mem_of_node?_build hn, Index.id_of_node?_build hn⟩
  refine ⟨hline, ?_⟩
  exact assignment_dominates_use blueprint {} _ acyclic .function 2 1 _ "add_3_result" "sum" hline
    (List.mem_singleton_self _) hpure htemporary

end ComparedSum

end Routines

end Blueprints
