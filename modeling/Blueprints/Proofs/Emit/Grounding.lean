import Blueprints.Proofs.Emit.Running

/-! # What is assigned at a place is on its path

    The converse of readiness.  A place is *grounded* on a path that starts
    with the nodes of a `base` if every node whose temporary is assigned there,
    under `root`, has come onto the path after the base, readers of variables
    apart.

    The steps on a stack stay grounded because each has a block of its own:
    what a visit writes, it writes into its block and new ones, so that
    nothing new stands before the places of the other steps
    (`Walking.apart`).  Ready and grounded places together tell which of the
    values that a turn reads are assigned under `root` (`Turn.assigned_iff`). -/

namespace Blueprints

open Arena

/-! ## What is not assigned -/

section Frames

variable {a a' : Arena Statement} {root b x i : Nat} {t : String}

/-- What is assigned at a place that exists was assigned there before. -/
theorem Arena.Extends.assignedWithin (h : a.Extends b a') (hx : x < a.size)
    (hi : i ≤ (a.body x).length) (hassigned : a'.AssignedWithin root t x i) :
    a.AssignedWithin root t x i := by
  obtain ⟨c, j, value, hline, hunder, hbefore⟩ := hassigned
  obtain ⟨hbefore, hj⟩ := h.before hbefore hx hi
  have hold : (a.body c)[j]? = some (.line (.assign t value)) := by
    have hkept := h.keeps.body (List.getElem?_eq_getElem hj)
    rw [List.getElem?_eq_getElem hj, ← hkept, hline]
  exact ⟨c, j, value, hold, h.under hunder (lt_size_of_getElem? hold), hbefore⟩

/-- What is assigned behind new lines was assigned ahead of them, or one of
    them assigns it. -/
theorem Arena.AssignedWithin.of_lines (hb : b < a.size) {ss : List Statement}
    (hassigned : (a.lines b ss).AssignedWithin root t b i) :
    a.AssignedWithin root t b (a.body b).length ∨ ∃ value, .assign t value ∈ ss := by
  have hext := extends_lines a b ss
  obtain ⟨c, j, value, hline, hunder, hbefore⟩ := hassigned
  cases hbefore with
  | inside hlt =>
      -- an old line of the block, or one of the new ones
      by_cases hj : j < (a.body b).length
      · exact Or.inl (hext.assignedWithin hb (Nat.le_refl _)
          ⟨b, j, value, hline, hunder, .inside hj⟩)
      · rw [body_lines hb, List.getElem?_append_right (Nat.le_of_not_lt hj),
          List.getElem?_map] at hline
        obtain ⟨s, hs, heq⟩ := Option.map_eq_some_iff.1 hline
        obtain rfl := Item.line.inj heq
        exact Or.inr ⟨value, List.mem_of_getElem? hs⟩
  | deeper hbefore hput =>
      -- what stands before the block itself stands before its old end
      exact Or.inl (hext.assignedWithin hb (Nat.le_refl _)
        ⟨c, j, value, hline, hunder, .deeper hbefore hput⟩)

/-- Bare lines and reserved blocks assign nothing. -/
theorem Arena.Quietly.assignedWithin (h : a.Quietly b a') (closed : a.Closed)
    (hx : x = b ∨ a.size ≤ x) (hassigned : a'.AssignedWithin root t x i) :
    a.AssignedWithin root t b (a.body b).length := by
  obtain ⟨c, j, value, hline, hunder, hbefore⟩ := hassigned
  obtain ⟨hold, hbefore⟩ := h.before closed rfl hline hbefore hx
  exact ⟨c, j, value, hold, h.toExtends.under hunder (lt_size_of_getElem? hold), hbefore⟩

end Frames

/-! ## Grounded places -/

/-- The end of a block is grounded on a path: the nodes of `base` are on the
    path, and what is assigned there, under `root`, is on it after them,
    readers apart. -/
structure Grounded (ctx : Context) (root : Nat) (base : List String) (a : Arena Statement)
    (path : List String) (b : Nat) : Prop where
  based : ∀ y ∈ base, y ∈ path
  assigned : ∀ {x t : String}, a.AssignedWithin root t b (a.body b).length → ctx.Holds t x →
    ctx.isReader x = false → x ∈ path ∧ x ∉ base

section Grounds

variable {ctx : Context} {root b x : Nat} {base path : List String} {a a' : Arena Statement}
  {id : String}

/-- Writing into another block leaves a place grounded. -/
theorem Grounded.elsewhere (h : Grounded ctx root base a path x) (hext : a.Extends b a')
    (hx : x < a.size) (hne : x ≠ b) : Grounded ctx root base a' path x := by
  refine ⟨h.based, fun hassigned => ?_⟩
  rw [hext.body_of_ne hx hne] at hassigned
  exact h.assigned (hext.assignedWithin hx (Nat.le_refl _) hassigned)

/-- Lines that assign nothing leave a place grounded, and so the blocks that they
    open. -/
theorem Grounded.quietly (h : Grounded ctx root base a path b) (hquiet : a.Quietly b a')
    (closed : a.Closed) (hx : x = b ∨ a.size ≤ x) : Grounded ctx root base a' path x :=
  ⟨h.based, fun hassigned => h.assigned (hquiet.assignedWithin closed hx hassigned)⟩

/-- A longer path grounds no less. -/
theorem Grounded.longer (h : Grounded ctx root base a path b) (id : String) :
    Grounded ctx root base a (id :: path) b := by
  refine ⟨fun y hy => List.mem_cons_of_mem _ (h.based y hy), fun hassigned hholds hreader => ?_⟩
  obtain ⟨hpath, hbase⟩ := h.assigned hassigned hholds hreader
  exact ⟨List.mem_cons_of_mem _ hpath, hbase⟩

/-- A node that comes onto the path is not assigned yet. -/
theorem Grounded.extend (h : Grounded ctx root base a path b) (hid : id ∉ path) :
    Grounded ctx root (id :: base) a (id :: path) b := by
  refine ⟨fun y hy => ?_, fun hassigned hholds hreader => ?_⟩
  · rcases List.mem_cons.1 hy with rfl | hy
    · exact List.mem_cons_self ..
    · exact List.mem_cons_of_mem _ (h.based y hy)
  · obtain ⟨hpath, hbase⟩ := h.assigned hassigned hholds hreader
    refine ⟨List.mem_cons_of_mem _ hpath, fun hmem => ?_⟩
    rcases List.mem_cons.1 hmem with rfl | hmem
    · exact hid hpath
    · exact hbase hmem

/-- Lines that assign a node make it one of those after the base. -/
theorem Grounded.settle (complete : ctx.Complete) (h : Grounded ctx root (id :: base) a path b)
    (hb : b < a.size) (hid : id ∉ base) {ss : List Statement}
    (hss : ∀ {t : String} {value : Expr}, .assign t value ∈ ss → ctx.Holds t id) :
    Grounded ctx root base (a.lines b ss) path b := by
  refine ⟨fun y hy => h.based y (List.mem_cons_of_mem _ hy), fun hassigned hholds hreader => ?_⟩
  rcases hassigned.of_lines hb with hold | ⟨value, hmem⟩
  · obtain ⟨hpath, hbase⟩ := h.assigned hold hholds hreader
    exact ⟨hpath, fun hmem => hbase (List.mem_cons_of_mem _ hmem)⟩
  · obtain rfl := hholds.unique complete (hss hmem)
    exact ⟨h.based _ (List.mem_cons_self ..), hid⟩

/-- What a read assigns was not on the path. -/
theorem Grounded.reads (complete : ctx.Complete) {e r : Emission} {n : Node} {param : String}
    {log : Log} (h : Grounded ctx root base e.blocks e.path.latest b) (hb : b < e.blocks.size)
    (hreads : Reads ctx b n param e log r) :
    Grounded ctx root base r.blocks r.path.latest b := by
  refine ⟨fun y hy => (hreads.path y).2 (Or.inl (h.based y hy)),
    fun {x t} hassigned hholds hreader => ?_⟩
  rw [hreads.blocks] at hassigned
  rcases hassigned.of_lines hb with hold | ⟨value, hmem⟩
  · obtain ⟨hpath, hbase⟩ := h.assigned hold hholds hreader
    exact ⟨(hreads.path x).2 (Or.inl hpath), hbase⟩
  · obtain ⟨y, hy, t', value', hassign, hholds'⟩ := hreads.valid.assigns hmem
    -- a temporary holds the value of one node only, so the log has computed `x`
    obtain ⟨rfl, -⟩ := Statement.assign.inj hassign
    obtain rfl := hholds.unique complete hholds'
    refine ⟨(hreads.path x).2 (Or.inr ⟨hy, hreader⟩), fun hbase => hreads.not_current hy ?_⟩
    exact (isCurrent_iff_of_not_reader hreader e).2 (h.based x hbase)

end Grounds

/-! ## Steps with blocks of their own -/

/-- The steps on a stack go on in blocks of their own, and each is
    grounded. -/
structure Apart (ctx : Context) (root : Nat) (base : List String) (stack : List Step)
    (e : Emission) : Prop where
  closed : e.blocks.Closed
  distinct : (stack.map Step.block).Nodup
  grounded : ∀ step ∈ stack, Grounded ctx root base e.blocks step.path.latest step.block

section Stacks

variable {ctx : Context} {root : Nat} {base : List String} {s₀ s rest : List Step} {step : Step}
  {e₀ e : Emission}

/-- A visit replaces its step by steps in its block and in new ones. -/
theorem Apart.after (h : Apart ctx root base (step :: rest) e)
    (hsteady : Steady ctx root base (step :: rest) e) {start : Emission} {v : Visited}
    {base' ids : List String} (hext : e.blocks.Extends step.block start.blocks)
    (hstart : Grounded ctx root base start.blocks start.path.latest step.block)
    (hgo : GoesOn ctx root base' ids step.block start v) :
    Apart ctx root base (v.steps ++ rest) v.2 := by
  have hclosed := hext.closed h.closed
  have hwhole := hext.trans hgo.quiet.toExtends (Or.inl rfl)
  obtain ⟨hown, hothers⟩ := List.nodup_cons.1 h.distinct
  have hne : ∀ step' ∈ rest, step'.block ≠ step.block :=
    fun step' hstep' heq => hown (heq ▸ List.mem_map_of_mem hstep')
  have hlt : ∀ step' ∈ rest, step'.block < e.blocks.size :=
    fun step' hstep' => (hsteady.ready step' (List.mem_cons_of_mem _ hstep')).within
  refine ⟨hgo.quiet.closed hclosed, ?_, fun step' hstep' => ?_⟩
  · rw [List.map_append, List.nodup_append]
    refine ⟨?_, hothers, ?_⟩
    · rw [Visited.steps, List.map_map]
      exact hgo.distinct
    · -- an exit is in the block of the step or in a new one, another step in neither
      rintro _ hexit _ hother rfl
      obtain ⟨_, hstep, rfl⟩ := List.mem_map.1 hexit
      obtain ⟨x, hx, rfl⟩ := List.mem_map.1 hstep
      obtain ⟨step', hstep', heq⟩ := List.mem_map.1 hother
      have hsize := hext.keeps.size
      have hx : x.block = step.block ∨ start.blocks.size ≤ x.block := hgo.apart x hx
      have heq : step'.block = x.block := heq
      have := hne step' hstep'
      have := hlt step' hstep'
      omega
  · rcases List.mem_append.1 hstep' with hexit | hrest
    · obtain ⟨x, hx, rfl⟩ := List.mem_map.1 hexit
      show Grounded ctx root base v.2.blocks v.2.path.latest x.block
      rw [hgo.path]
      exact hstart.quietly hgo.quiet hclosed (hgo.apart x hx)
    · exact (h.grounded step' (List.mem_cons_of_mem _ hrest)).elsewhere hwhole
        (hlt step' hrest) (hne step' hrest)

/-- A step that is new goes to a node that is not on its path. -/
theorem not_mem_path_of_new (hnew : step.path.contains step.node = false) :
    step.node ∉ step.path.latest := by
  rw [← VisitedPath.contains_iff_mem, hnew]
  exact Bool.false_ne_true

namespace Turn

variable (t : Turn ctx s₀ e₀) (h : Steady ctx root base (t.step :: t.rest) t.before)
  (hapart : Apart ctx root base (t.step :: t.rest) t.before)

/-- The statement of a turn assigns nothing but the temporary of its node. -/
theorem holds_of_statement? (complete : ctx.Complete) {name : String} {value : Expr}
    (hs : t.statement? = some (.assign name value)) : ctx.Holds name t.step.node := by
  rw [statement?] at hs
  cases hkind : t.kind with
  | pure k =>
      obtain ⟨p⟩ := complete.pureNode (isPure_of_kind t.found t.known (hkind ▸ t.ofKind))
      obtain ⟨-, hresult⟩ := t.eq_of_pureNode p
      rw [hkind, NodeKind.statement?, hresult] at hs
      obtain ⟨rfl, -⟩ := Statement.assign.inj (Option.some.inj hs)
      exact ⟨p, rfl⟩
  | _ =>
      rw [hkind] at hs
      cases hs

include h hapart

/-- A turn reads its inputs at a grounded place; its own node is not assigned
    there. -/
theorem grounded_reading (complete : ctx.Complete) (params : List String) :
    Grounded ctx root (t.step.node :: base) (t.reading params).blocks
      (t.reading params).path.latest t.step.block := by
  have hstep := (hapart.grounded t.step (List.mem_cons_self ..)).extend (not_mem_path_of_new t.new)
  have harrived : Grounded ctx root (t.step.node :: base) t.arrived.blocks t.arrived.path.latest
      t.step.block := by
    have hpath : t.arrived.path = t.step.path.extend t.step.node := by
      rw [arrived, Emission.announce]
      split
      · rfl
      · rfl
    rw [hpath]
    exact hstep.quietly t.quietly_arrived hapart.closed (Or.inl rfl)
  have hall : Prepared ctx root (t.step.node :: base) t.step.block (t.reading params)
      ∧ Grounded ctx root (t.step.node :: base) (t.reading params).blocks
        (t.reading params).path.latest t.step.block := by
    refine readInputs_induction
      (P := fun e => Prepared ctx root (t.step.node :: base) t.step.block e
        ∧ Grounded ctx root (t.step.node :: base) e.blocks e.path.latest t.step.block) params
      (fun param _ e he => ?_) ⟨t.prepared h complete [], harrived⟩
    obtain ⟨log, hreads⟩ := exists_log_readInput complete t.step.block t.node param he.1.fresh
    exact ⟨he.1.reads hreads, he.2.reads complete he.1.ready.within hreads⟩
  exact hall.2

/-- The place behind the statement of a turn is grounded. -/
theorem grounded_stated (complete : ctx.Complete) :
    Grounded ctx root base t.stated.blocks t.stated.path.latest t.step.block := by
  refine Grounded.settle complete (t.grounded_reading h hapart complete t.inputs)
    (t.prepared h complete t.inputs).ready.within ?_ fun hmem => ?_
  · -- the base is on the path to the step, and its node is not
    intro hbase
    exact not_mem_path_of_new t.new ((hapart.grounded t.step (List.mem_cons_self ..)).based _ hbase)
  · exact t.holds_of_statement? complete (Option.mem_toList.1 hmem)

/-- **Which of the values that a turn reads are assigned under a block**: those
    of variable readers, and those of the nodes that are not in the base. -/
theorem assigned_iff (complete : ctx.Complete) {param name : String} {output : Endpoint}
    {kind : ParamKind} (hparam : param ∈ t.inputs)
    (hsource : ctx.source t.node param = .temporary name output kind)
    (hholds : ctx.Holds name output.node) :
    (t.reading t.inputs).blocks.AssignedWithin root name t.step.block t.place
      ↔ ctx.isReader output.node = true ∨ output.node ∉ t.step.node :: base := by
  constructor
  · intro hassigned
    cases hreader : ctx.isReader output.node with
    | true => exact Or.inl rfl
    | false =>
        exact Or.inr ((t.grounded_reading h hapart complete t.inputs).assigned hassigned hholds
          hreader).2
  · intro hanew
    rcases t.assigned h complete hparam hsource hholds with ⟨hbase, hreader⟩ | hassigned
    · rcases hanew with hreader' | hnot
      · rw [hreader] at hreader'
        exact nomatch hreader'
      · exact absurd hbase hnot
    · exact hassigned

end Turn

/-- **The steps of a run stay apart.** -/
theorem Walking.apart (complete : ctx.Complete) (h : Walking ctx s₀ e₀ s e)
    (h₀ : Steady ctx root base s₀ e₀) (hapart : Apart ctx root base s₀ e₀) :
    Apart ctx root base s e := by
  refine h.induction hapart (fun ih => ?_)
    (fun {step rest e n} hrun ih hn hkind => ?_) fun t ih => ?_
  · exact ⟨ih.closed, (List.nodup_cons.1 ih.distinct).2,
      fun step hstep => ih.grounded step (List.mem_cons_of_mem _ hstep)⟩
  · have hsteady := hrun.steady complete h₀
    have hgrounded := (ih.grounded step (List.mem_cons_self ..)).longer step.node
    have hgo := goesOn_visit_of_unknown hkind hsteady.extend
    exact ih.after hsteady (.refl step.block (e.onPath (step.path.extend step.node)).blocks)
      hgrounded hgo
  · have hsteady := t.running.steady complete h₀
    exact ih.after hsteady (t.extends_stated hsteady complete)
      (t.grounded_stated hsteady ih complete) (t.goesOn complete (t.ready_stated hsteady complete))

/-- Nothing that a run writes assigns anything at a place that exists. -/
theorem Walking.assignedWithin (complete : ctx.Complete) (h : Walking ctx s₀ e₀ s e)
    (h₀ : Steady ctx root base s₀ e₀) {r x i : Nat} {name : String} (hx : x < e₀.blocks.size)
    (hi : i ≤ (e₀.blocks.body x).length) (hassigned : e.blocks.AssignedWithin r name x i) :
    e₀.blocks.AssignedWithin r name x i := by
  refine (h.blocks_induction complete (P := fun a => a.AssignedWithin r name x i →
    e₀.blocks.AssignedWithin r name x i) h₀ id ?_).2 hassigned
  intro a a' b hkeeps hext ih hassigned
  exact ih (hext.assignedWithin (Nat.lt_of_lt_of_le hx hkeeps.size)
    (Nat.le_trans hi (hkeeps.length_le x)) hassigned)

/-- What is assigned ahead of the statement of a turn is seen when its inputs
    are read. -/
theorem Turn.assignedWithin_walk_iff (complete : ctx.Complete) (t : Turn ctx s₀ e₀)
    (h₀ : Steady ctx root base s₀ e₀) {r : Nat} {name : String} :
    (walk ctx s₀ e₀).blocks.AssignedWithin r name t.step.block t.place
      ↔ (t.reading t.inputs).blocks.AssignedWithin r name t.step.block t.place := by
  have hsteady := t.running.steady complete h₀
  have hlt := (t.prepared hsteady complete t.inputs).ready.within
  have hvisit := t.running.visit t.new t.found
  have hstated := extends_lines (t.reading t.inputs).blocks t.step.block t.statement?.toList
  have hwhole := hstated.trans (t.goesOn complete (t.ready_stated hsteady complete)).quiet.toExtends
    (Or.inl rfl)
  constructor
  · intro hassigned
    rw [← hvisit.walk_eq] at hassigned
    refine hwhole.assignedWithin hlt (Nat.le_refl _) ?_
    exact Walking.start.finish.assignedWithin complete (hvisit.steady complete h₀)
      (Nat.lt_of_lt_of_le hlt hwhole.keeps.size) (hwhole.keeps.length_le _) hassigned
  · intro hassigned
    exact hassigned.keeps (hstated.keeps.trans (t.stated_keeps_walk complete h₀))

end Stacks

/-- A routine starts with steps that are apart. -/
theorem apart_entrySteps (ctx : Context) (entries : List Node) (findings : Findings) :
    Apart ctx Arena.root [] (entrySteps entries { findings }).1
      (entrySteps entries { findings }).2 := by
  have hgo := goesOn_entries ctx entries findings
  rw [entrySteps_eq]
  refine ⟨hgo.quiet.closed closed_new, ?_, fun step hstep => ⟨nofun, fun hassigned => ?_⟩⟩
  · rw [List.map_map]
    exact hgo.distinct
  · obtain ⟨x, hx, rfl⟩ := List.mem_map.1 hstep
    obtain ⟨c, j, value, hline, -⟩ :=
      hgo.quiet.assignedWithin closed_new (hgo.apart x hx) hassigned
    have hbody : (({ findings } : Emission).blocks.body c) = [] := body_new c
    rw [hbody] at hline
    exact nomatch hline

end Blueprints
