import Mathlib.Data.List.Induction
import Blueprints.Proofs.Emit.Loops

/-! # When the bound of a loop is assigned in its body

    The head of a loop reads its bound before every turn of the loop.  If the
    bound is a temporary, it stays as it was when the loop started exactly if
    no line in the body assigns it.

    A turn assigns the temporaries of the pure nodes that it computes, the
    index of a loop and a variable (`Turn.Assigns`).  The run into the body
    writes under the body what its turns assign, and the steps that are left
    when the body is done write nothing there (`Outside`).  So the bound is
    assigned in the body exactly if a turn in the body assigns it
    (`Turn.assignsUnder_iff`), and of the pure nodes only variable readers are
    computed once more. -/

namespace Blueprints

open Arena Relation

/-! ## What a line assigns -/

/-- What a line assigns, as it is written: a temporary, the index of a loop or
    a variable. -/
def Statement.target? : Statement → Option String
  | .assign target _ => some target
  | .openFor index _ => some index
  | .assignVariable target _ => some target.text
  | _ => none

/-- A line in a block, or in a block under it, assigns a name. -/
def Arena.AssignsUnder (a : Arena Statement) (root : Nat) (name : String) : Prop :=
  ∃ (c j : Nat) (s : Statement), a.Under root c ∧ (a.body c)[j]? = some (.line s)
    ∧ s.target? = some name

/-- A bare line assigns nothing. -/
theorem Statement.target?_of_isBare {s : Statement} (h : s.isBare = true) : s.target? = none := by
  cases s with
  | blank | comment | openCase | leaveCase | openTask | closeTask | awaitTasks | close => rfl
  | _ => exact nomatch h

/-- Bare lines and reserved blocks assign nothing. -/
theorem Arena.Quietly.line_of_target? {a a' : Arena Statement} {b c j : Nat} {s : Statement}
    {name : String} (h : a.Quietly b a') (hline : (a'.body c)[j]? = some (.line s))
    (htarget : s.target? = some name) : (a.body c)[j]? = some (.line s) := by
  rcases h.lines hline with hold | hbare
  · exact hold
  · rw [Statement.target?_of_isBare hbare] at htarget
    exact nomatch htarget

/-- A line behind others is one of them or new. -/
theorem Arena.line_of_lines {a : Arena Statement} {b c j : Nat} {ss : List Statement}
    {s : Statement} (h : ((a.lines b ss).body c)[j]? = some (.line s)) :
    (a.body c)[j]? = some (.line s) ∨ s ∈ ss := by
  induction ss generalizing a with
  | nil => exact Or.inl h
  | cons s' rest ih =>
      rcases ih h with hold | hmem
      · rcases getElem?_line_cases hold with hold | ⟨-, -, hnew⟩
        · exact Or.inl hold
        · obtain rfl := Item.line.inj hnew
          exact Or.inr (List.mem_cons_self ..)
      · exact Or.inr (List.mem_cons_of_mem _ hmem)

/-- A line that was written stands somewhere in its block. -/
theorem Arena.exists_line_of_mem {a : Arena Statement} {b : Nat} (hb : b < a.size)
    {ss : List Statement} {s : Statement} (hs : s ∈ ss) :
    ∃ j : Nat, ((a.lines b ss).body b)[j]? = some (.line s) := by
  refine List.getElem?_of_mem ?_
  rw [body_lines hb]
  exact List.mem_append_right _ (List.mem_map_of_mem hs)

/-! ## What a turn assigns -/

/-- A node that is taken anew is pure, and did not hold its value. -/
theorem Context.TakesAnew.not_current {ctx : Context} {e : Emission} {n : Node} {param x : String}
    (h : ctx.TakesAnew e n param x) :
    ctx.index.isPure ctx.catalog x = true ∧ ¬e.isCurrent ctx x = true := by
  obtain ⟨t, output, kind, -, hpure, hnot, hchain⟩ := h
  cases hchain with
  | refl => exact ⟨hpure, hnot⟩
  | tail _ hstep =>
      obtain ⟨⟨m, -, hmem⟩, hnot'⟩ := hstep
      obtain ⟨d, -, hpure', -⟩ := mem_pureDependencies.1 hmem
      exact ⟨hpure', hnot'⟩

namespace Turn

variable {ctx : Context} {s₀ : List Step} {e₀ : Emission}

/-- The turn computes a pure node: it is the node of the turn, or one that is
    taken anew for an input. -/
def Computes (t : Turn ctx s₀ e₀) (x : String) : Prop :=
  ((∃ k, t.kind = .pure k) ∧ t.step.node = x)
    ∨ ∃ params param more, t.inputs = params ++ param :: more
      ∧ ctx.TakesAnew (t.reading params) t.node param x

/-- The lines of the turn assign a name. -/
def Assigns (t : Turn ctx s₀ e₀) (name : String) : Prop :=
  (∃ x, ctx.Holds name x ∧ t.Computes x)
    ∨ (t.kind = .forLoop ∧ loopIndex ctx t.node = name)
    ∨ (t.kind = .setVariable ∧ (ctx.variableOf t.node t.definition).text = name)

variable (t : Turn ctx s₀ e₀) {name : String}

variable {t} in
/-- A turn computes pure nodes only. -/
theorem Computes.isPure {x : String} (h : t.Computes x) :
    ctx.index.isPure ctx.catalog x = true := by
  rcases h with ⟨⟨k, hk⟩, rfl⟩ | ⟨params, param, more, -, hanew⟩
  · exact isPure_of_kind t.found t.known (hk ▸ t.ofKind)
  · exact hanew.not_current.1

/-- What the statement of a turn assigns. -/
theorem exists_target_statement?_iff (complete : ctx.Complete) :
    (∃ s, t.statement? = some s ∧ s.target? = some name)
      ↔ (∃ k, t.kind = .pure k) ∧ ctx.Holds name t.step.node
        ∨ (t.kind = .forLoop ∧ loopIndex ctx t.node = name)
        ∨ (t.kind = .setVariable ∧ (ctx.variableOf t.node t.definition).text = name) := by
  rw [statement?]
  cases hkind : t.kind with
  | pure k =>
      obtain ⟨p⟩ := complete.pureNode (isPure_of_kind t.found t.known (hkind ▸ t.ofKind))
      obtain ⟨-, hresult⟩ := t.eq_of_pureNode p
      have hholds : ctx.Holds name t.step.node ↔ p.temporary = name := by
        constructor
        · rintro ⟨p', hp'⟩
          exact (p.temporary_eq p').trans hp'
        · exact fun h => ⟨p, h⟩
      rw [NodeKind.statement?, hresult, hholds]
      simp [Statement.target?]
  | forLoop | setVariable => simp [NodeKind.statement?, Statement.target?]
  | print | debugLog | delay | debugBreak | debugWatch | branch | switch =>
      simp [NodeKind.statement?, Statement.target?]
  | _ => simp [NodeKind.statement?]

section Written

variable {root : Nat} {base : List String} (complete : ctx.Complete)
  (h : Steady ctx root base (t.step :: t.rest) t.before)

include complete h

/-- What a turn does to read one of its inputs, exactly. -/
theorem exists_exact_log (params : List String) (param : String) :
    ∃ log, Reads ctx t.step.block t.node param (t.reading params) log
        (t.reading (params ++ [param]))
      ∧ ∀ x, x ∈ log.ids ↔ ctx.TakesAnew (t.reading params) t.node param x := by
  rw [reading, reading, readInputs_append]
  exact exists_exact_log_readInput complete t.step.block t.node param
    (t.prepared h complete params).fresh

/-- What is assigned by reading inputs holds the value of a node that is
    computed for one of them. -/
theorem line_of_reading {params more : List String} (hinputs : t.inputs = params ++ more)
    {c j : Nat} {s : Statement} (hline : ((t.reading params).blocks.body c)[j]? = some (.line s))
    (htarget : s.target? = some name) :
    (t.arrived.blocks.body c)[j]? = some (.line s) ∨ ∃ x, ctx.Holds name x ∧ t.Computes x := by
  induction params using List.reverseRecOn generalizing more with
  | nil => exact Or.inl hline
  | append_singleton params param ih =>
      rw [List.append_assoc, List.singleton_append] at hinputs
      obtain ⟨log, hreads, hexact⟩ := t.exists_exact_log complete h params param
      rw [hreads.blocks] at hline
      rcases line_of_lines hline with hold | hmem
      · exact ih hinputs hold
      · obtain ⟨x, hx, name', value, rfl, hholds⟩ := hreads.valid.assigns hmem
        obtain rfl := Option.some.inj htarget
        exact Or.inr ⟨x, hholds, Or.inr ⟨params, param, more, hinputs, (hexact x).1 hx⟩⟩

/-- A line that a turn has written and that assigns a name makes the turn one
    that assigns it. -/
theorem line_of_stated {c j : Nat} {s : Statement}
    (hline : (t.stated.blocks.body c)[j]? = some (.line s)) (htarget : s.target? = some name) :
    (t.before.blocks.body c)[j]? = some (.line s) ∨ t.Assigns name := by
  rw [stated, Emission.blocks_withBlocks] at hline
  rcases line_of_lines hline with hread | hstatement
  · rcases t.line_of_reading complete h (List.append_nil _).symm hread htarget with harrived | hx
    · exact Or.inl (t.quietly_arrived.line_of_target? harrived htarget)
    · exact Or.inr (Or.inl hx)
  · rcases (t.exists_target_statement?_iff complete).1 ⟨s, Option.mem_toList.1 hstatement, htarget⟩
      with ⟨hpure, hholds⟩ | hother
    · exact Or.inr (Or.inl ⟨_, hholds, Or.inl ⟨hpure, rfl⟩⟩)
    · exact Or.inr (Or.inr hother)

/-- What a turn assigns, it assigns in its block. -/
theorem Assigns.exists_line (hassigns : t.Assigns name) :
    ∃ (j : Nat) (s : Statement), (t.stated.blocks.body t.step.block)[j]? = some (.line s)
      ∧ s.target? = some name := by
  have hstated : ∀ {s : Statement}, t.statement? = some s → s.target? = some name →
      ∃ (j : Nat) (s : Statement), (t.stated.blocks.body t.step.block)[j]? = some (.line s)
        ∧ s.target? = some name := by
    intro s hs htarget
    obtain ⟨j, hj⟩ := exists_line_of_mem (t.prepared h complete t.inputs).ready.within
      (Option.mem_toList.2 hs)
    exact ⟨j, s, hj, htarget⟩
  rcases hassigns with ⟨x, hholds, ⟨hpure, rfl⟩ | ⟨params, param, more, hinputs, hanew⟩⟩ | hother
  · obtain ⟨s, hs, htarget⟩ := (t.exists_target_statement?_iff complete).2 (Or.inl ⟨hpure, hholds⟩)
    exact hstated hs htarget
  · obtain ⟨log, hreads, hexact⟩ := t.exists_exact_log complete h params param
    obtain ⟨value, hmem⟩ := hreads.valid.assigned ((hexact x).2 hanew) hholds
    obtain ⟨j, hj⟩ := exists_line_of_mem (t.prepared h complete params).ready.within hmem
    rw [← hreads.blocks] at hj
    have hkeeps := t.keeps_reading h complete (params ++ [param]) more
    rw [List.append_assoc, List.singleton_append, ← hinputs] at hkeeps
    exact ⟨j, _, (keeps_lines ..).body (hkeeps.body hj), rfl⟩
  · obtain ⟨s, hs, htarget⟩ := (t.exists_target_statement?_iff complete).2 (Or.inr hother)
    exact hstated hs htarget

end Written

end Turn

/-- **What a run assigns, a turn of it assigns.** -/
theorem Walking.line_of_target? {ctx : Context} {s₀ s : List Step} {e₀ e : Emission} {root : Nat}
    {base : List String} (complete : ctx.Complete) (h : Walking ctx s₀ e₀ s e)
    (h₀ : Steady ctx root base s₀ e₀) {c j : Nat} {line : Statement} {name : String}
    (hline : (e.blocks.body c)[j]? = some (.line line)) (htarget : line.target? = some name) :
    (e₀.blocks.body c)[j]? = some (.line line) ∨ ∃ t : Turn ctx s₀ e₀, t.Assigns name := by
  refine h.induction (I := fun _ e => (e.blocks.body c)[j]? = some (.line line) →
    (e₀.blocks.body c)[j]? = some (.line line) ∨ ∃ t : Turn ctx s₀ e₀, t.Assigns name) Or.inl id
    ?_ ?_ hline
  · intro step rest e n hrun ih hn hkind hline
    have hquiet := (goesOn_visit_of_unknown hkind (hrun.steady complete h₀).extend).quiet
    exact ih (hquiet.line_of_target? hline htarget)
  · intro t ih hline
    have hsteady := t.running.steady complete h₀
    have hquiet := (t.goesOn complete (t.ready_stated hsteady complete)).quiet
    rcases t.line_of_stated complete hsteady (hquiet.line_of_target? hline htarget) htarget with
      hold | hassigns
    · exact ih hold
    · exact Or.inr ⟨t, hassigns⟩

/-! ## What is left alone -/

/-- The steps on a stack go on in blocks that are not under `r`, and what is
    under `r` is as it was. -/
structure Outside (r : Nat) (a₀ : Arena Statement) (stack : List Step) (e : Emission) : Prop where
  closed : e.blocks.Closed
  within : r < e.blocks.size
  steps : ∀ step ∈ stack, ¬e.blocks.Under r step.block
  unchanged : ∀ {x : Nat}, e.blocks.Under r x → a₀.Under r x ∧ e.blocks.body x = a₀.body x

section Outsides

variable {ctx : Context} {s₀ s rest : List Step} {step : Step} {e₀ e start : Emission}
  {r root : Nat} {base ids : List String} {a₀ : Arena Statement} {v : Visited}

/-- A visit goes on in its block and in new ones, none of which is put under
    `r`. -/
theorem Outside.after (h : Outside r a₀ (step :: rest) e)
    (hext : e.blocks.Extends step.block start.blocks)
    (hgo : GoesOn ctx root base ids step.block start v) : Outside r a₀ (v.steps ++ rest) v.2 := by
  have hwhole := hext.trans hgo.quiet.toExtends (Or.inl rfl)
  have hstep := h.steps step (List.mem_cons_self ..)
  refine ⟨hwhole.closed h.closed, Nat.lt_of_lt_of_le h.within hwhole.keeps.size,
    fun step' hstep' hunder => ?_, fun hunder => ?_⟩
  · obtain ⟨hold, hlt⟩ := hwhole.under_of_not_under h.closed h.within hstep hunder
    rcases List.mem_append.1 hstep' with hexit | hrest
    · obtain ⟨x, hx, rfl⟩ := List.mem_map.1 hexit
      rcases hgo.apart x hx with heq | hnew
      · exact hstep (heq ▸ hold)
      · have hsize := hext.keeps.size
        exact absurd hlt (Nat.not_lt.2 (Nat.le_trans hsize hnew))
    · exact h.steps step' (List.mem_cons_of_mem _ hrest) hold
  · obtain ⟨hold, -⟩ := hwhole.under_of_not_under h.closed h.within hstep hunder
    obtain ⟨hfirst, hbody⟩ := h.unchanged hold
    exact ⟨hfirst, (hwhole.body_of_not_under h.closed h.within hstep hunder).trans hbody⟩

/-- **A run of steps outside stays outside.** -/
theorem Walking.outside (complete : ctx.Complete) (h : Walking ctx s₀ e₀ s e)
    (h₀ : Steady ctx root base s₀ e₀) (hout : Outside r a₀ s₀ e₀) : Outside r a₀ s e := by
  refine h.induction hout (fun ih => ?_) (fun {step rest e n} hrun ih hn hkind => ?_) fun t ih => ?_
  · exact { ih with steps := fun step hstep => ih.steps step (List.mem_cons_of_mem _ hstep) }
  · exact ih.after (.refl step.block (e.onPath (step.path.extend step.node)).blocks)
      (goesOn_visit_of_unknown hkind (hrun.steady complete h₀).extend)
  · have hsteady := t.running.steady complete h₀
    exact ih.after (t.extends_stated hsteady complete)
      (t.goesOn complete (t.ready_stated hsteady complete))

/-- A block that exists does not come under another one. -/
theorem Walking.under (complete : ctx.Complete) (h : Walking ctx s₀ e₀ s e)
    (h₀ : Steady ctx root base s₀ e₀) {x : Nat} (hx : x < e₀.blocks.size)
    (hunder : e.blocks.Under r x) : e₀.blocks.Under r x := by
  refine (h.blocks_induction complete (P := fun a => a.Under r x → e₀.blocks.Under r x) h₀ id
    ?_).2 hunder
  intro a a' b hkeeps hext ih hunder
  exact ih (hext.under hunder (Nat.lt_of_lt_of_le hx hkeeps.size))

end Outsides

/-! ## Loops -/

namespace Turn

variable {ctx : Context} {s₀ : List Step} {e₀ : Emission} {root : Nat} {base : List String}
  (t : Turn ctx s₀ e₀)

section Body

variable (hkind : t.kind = .forLoop)
  (hfirst : t.definition.execOutputs[0]?.map Param.id = some "loop_body")

include hkind hfirst

/-- The steps behind a turn start on the path that it leaves. -/
theorem stepsAfter_eq :
    t.stepsAfter = t.left.1.map fun x => ⟨x.node, t.visited.2.path, x.block⟩ := by
  have hsteps := t.bodySteps_append
  rw [Visited.steps, t.visited_of_forLoop hkind, List.map_append,
    t.bodySteps_eq hkind hfirst] at hsteps
  rw [t.visited_of_forLoop hkind]
  rw [t.visited_of_forLoop hkind] at hsteps
  exact List.append_cancel_left hsteps

variable (complete : ctx.Complete)

include complete

/-- The steps that are left when the body is done are not under the body. -/
theorem not_under_body (h : Steady ctx root base (t.step :: t.rest) t.before)
    (hclosed : t.before.blocks.Closed) {step : Step} (hstep : step ∈ t.stepsAfter ++ t.rest) :
    ¬t.visited.2.blocks.Under t.bodyBlock step.block := by
  intro hunder
  have hext := t.extends_stated h complete
  have hsize := hext.keeps.size
  have hblock := (h.ready t.step (List.mem_cons_self ..)).within
  rcases List.mem_append.1 hstep with hafter | hrest
  · rw [t.stepsAfter_eq hkind hfirst] at hafter
    obtain ⟨x, hx, rfl⟩ := List.mem_map.1 hafter
    have hentered := goesOn_goOnBy (n := t.node) t.definition.execOutputs[0]?
      (t.ready_body hkind [])
    have hready := t.ready_stated h complete
    rw [← t.blocks_headed hkind] at hready
    have hleft := goesOn_goOnBy (n := t.node) t.definition.execOutputs[1]?
      (((hready.reserve .nested t.step.block).emit t.step.block .close).keeps hentered.quiet.keeps)
    have hopened : t.opened.blocks.Closed := by
      have hheaded : t.headed.blocks.Closed := by
        rw [t.blocks_headed hkind]
        exact hext.closed hclosed
      exact (hheaded.reserve .nested t.step.block).line t.step.block .close
    -- a block that goes on behind the loop is its own block or newer than those of the body
    have hnot : ¬t.entered.2.blocks.Under t.bodyBlock t.step.block := fun hown =>
      absurd hown.le (Nat.not_le.2 (Nat.lt_of_lt_of_le hblock hsize))
    have hbody := Nat.lt_of_lt_of_le (t.ready_body hkind []).within hentered.quiet.keeps.size
    rw [t.visited_of_forLoop hkind] at hunder
    obtain ⟨hold, hlt⟩ := hleft.quiet.toExtends.under_of_not_under
      (hentered.quiet.closed hopened) hbody hnot hunder
    rcases hleft.apart x hx with heq | hnew
    · exact hnot (heq ▸ hold)
    · exact absurd hlt (Nat.not_lt.2 hnew)
  · have hlt := (h.ready step (List.mem_cons_of_mem _ hrest)).within
    exact absurd hunder.le (Nat.not_le.2 (Nat.lt_of_lt_of_le hlt hsize))

/-- **What is assigned in the body of a loop** is what the turns in the body
    assign. -/
theorem assignsUnder_iff (h₀ : Steady ctx root base s₀ e₀) (hapart : Apart ctx root base s₀ e₀)
    {name : String} :
    (walk ctx s₀ e₀).blocks.AssignsUnder t.bodyBlock name
      ↔ ∃ u : Turn ctx t.bodySteps t.visited.2, u.Assigns name := by
  have hsteady := t.running.steady complete h₀
  have hbody := t.steady_body hkind hfirst complete hsteady
  have hclosed := (t.running.apart complete h₀ hapart).closed
  constructor
  · rintro ⟨c, j, s, hunder, hline, htarget⟩
    -- the run into the body, and what is left after it
    have hinto : Walking ctx t.bodySteps t.visited.2 [] (walk ctx t.bodySteps t.visited.2) :=
      Walking.start.finish
    have hvisit := t.running.visit t.new t.found
    have hsteps : t.bodySteps ++ (t.stepsAfter ++ t.rest) = t.visited.steps ++ t.rest := by
      rw [← List.append_assoc, t.bodySteps_append]
    have happend := hinto.append (t.stepsAfter ++ t.rest)
    rw [hsteps] at happend
    have hrun := hvisit.trans happend
    have hout : Outside t.bodyBlock (walk ctx t.bodySteps t.visited.2).blocks
        (t.stepsAfter ++ t.rest) (walk ctx t.bodySteps t.visited.2) := by
      refine ⟨(hrun.apart complete h₀ hapart).closed, (hinto.steady complete hbody).within,
        fun step hstep hstepUnder => ?_, fun hx => ⟨hx, rfl⟩⟩
      have hlt := ((hvisit.steady complete h₀).ready step
        (hsteps ▸ List.mem_append_right _ hstep)).within
      exact t.not_under_body hkind hfirst complete hsteady hclosed hstep
        (hinto.under complete hbody hlt hstepUnder)
    have hend := Walking.start.finish.outside complete (hrun.steady complete h₀) hout
    rw [← hrun.walk_eq] at hunder hline
    obtain ⟨hunder, hsame⟩ := hend.unchanged hunder
    rw [hsame] at hline
    rcases hinto.line_of_target? complete hbody hline htarget with hold | hturn
    · -- nothing is assigned under the body when the loop is entered
      have hunder' := hinto.under complete hbody (lt_size_of_getElem? hold) hunder
      have hquiet := (t.goesOn complete (t.ready_stated hsteady complete)).quiet
      have hstated := lt_size_of_getElem? (hquiet.line_of_target? hold htarget)
      exact absurd hunder'.le (Nat.not_le.2 hstated)
    · exact hturn
  · rintro ⟨u, hassigns⟩
    have hsteady' := u.running.steady complete hbody
    obtain ⟨j, s, hline, htarget⟩ := hassigns.exists_line u complete hsteady'
    have hkeeps : u.stated.blocks.Keeps (walk ctx s₀ e₀).blocks :=
      (t.ofBody u).stated_keeps_walk complete h₀
    have hunder := (u.ready_stated hsteady' complete).under
    exact ⟨u.step.block, j, s, hunder.keeps hkeeps, hkeeps.body hline, htarget⟩

end Body

/-- A pure node from which a turn has read stays on the path, unless it is a
    variable reader. -/
theorem mem_path_of_source (complete : ctx.Complete)
    (h : Steady ctx root base (t.step :: t.rest) t.before) {param name : String}
    {output : Endpoint} {kind : ParamKind} (hparam : param ∈ t.inputs)
    (hsource : ctx.source t.node param = .temporary name output kind)
    (hpure : ctx.index.isPure ctx.catalog output.node = true)
    (hreader : ctx.isReader output.node = false) : output.node ∈ t.visited.2.path.latest := by
  rw [(t.goesOn complete (t.ready_stated h complete)).path]
  show output.node ∈ (t.reading t.inputs).path.latest
  obtain ⟨params, more, hsplit⟩ := List.append_of_mem hparam
  obtain ⟨log, hreads⟩ := t.exists_log h complete params param
  have hmem : output.node ∈ (t.reading (params ++ [param])).path.latest := by
    rcases hreads.producer hsource hpure with hcur | hlog
    · rw [isCurrent_iff_of_not_reader hreader] at hcur
      exact (hreads.path _).2 (Or.inl hcur)
    · exact (hreads.path _).2 (Or.inr ⟨hlog, hreader⟩)
  have hwithin := readInputs_within ctx t.node more t.step.block (t.reading (params ++ [param]))
  rw [reading, ← readInputs_append, List.append_assoc, List.singleton_append, ← hsplit] at hwithin
  exact hwithin _ hmem

/-- A node of the base that is no variable reader is not computed. -/
theorem not_computes (complete : ctx.Complete)
    (h : Steady ctx root base (t.step :: t.rest) t.before)
    (hapart : Apart ctx root base (t.step :: t.rest) t.before) {x : String} (hx : x ∈ base)
    (hreader : ctx.isReader x = false) : ¬t.Computes x := by
  rintro (⟨-, rfl⟩ | ⟨params, param, more, -, hanew⟩)
  · have hbased := (hapart.grounded t.step (List.mem_cons_self ..)).based
    exact not_mem_path_of_new t.new (hbased _ hx)
  · obtain ⟨-, hnot⟩ := hanew.not_current
    have hbased := (t.grounded_reading h hapart complete params).based
    exact hnot ((isCurrent_iff_of_not_reader hreader _).2
      (hbased x (List.mem_cons_of_mem _ hx)))

/-- What assigns a temporary that is read from a node: to compute the node,
    the head of a loop and a variable. -/
theorem assigns_iff (complete : ctx.Complete) {n : Node} {param name : String} {output : Endpoint}
    {kind : ParamKind} (hsource : ctx.source n param = .temporary name output kind) :
    t.Assigns name ↔ t.Computes output.node
      ∨ (t.kind = .forLoop ∧ loopIndex ctx t.node = name)
      ∨ (t.kind = .setVariable ∧ (ctx.variableOf t.node t.definition).text = name) := by
  refine or_congr_left ⟨?_, fun hcomputes => ?_⟩
  · rintro ⟨x, hholds, hcomputes⟩
    rw [node_eq_of_holds complete hsource hholds]
    exact hcomputes
  · exact ⟨_, holds_of_source complete hsource hcomputes.isPure, hcomputes⟩

end Turn

/-- **When the bound of a loop is assigned in its body.**  Over the palette,
    the head of every loop that a routine comes to holds the operand for its
    count, with the body behind it.  If that is a temporary, then a line in the
    body, or in a block under it, assigns it exactly if a turn in the body

    * computes the node that it is read from, which then counts as a variable
      reader, or
    * is a loop of which it is the index, or
    * assigns a variable that is written the same.

    So a count that is computed without variables stays fixed, and one that
    reads a variable follows the variable if the body takes it anew. -/
theorem loop_bound_assigned_in_body_iff (b : Blueprint) (options : Options) (entries : List Node)
    (findings : Findings) :
    let ctx := Context.of b .builtin options
    let routine := (writeRoutine ctx entries findings).blocks
    ∀ loop : Turn ctx (entrySteps entries { findings }).1 (entrySteps entries { findings }).2,
      loop.kind = .forLoop →
      ∀ (bound : String) (producer : Endpoint) (kind : ParamKind),
        ctx.source loop.node "count" = .temporary bound producer kind →
        (∃ k, (routine.body loop.step.block)[k]?
            = some (.line (.openFor (loopIndex ctx loop.node) (.temporary bound)))
          ∧ (routine.body loop.step.block)[k + 1]? = some (.block .nested loop.bodyBlock))
        ∧ (routine.AssignsUnder loop.bodyBlock bound
          ↔ ∃ t : Turn ctx loop.bodySteps loop.visited.2,
            (ctx.isReader producer.node = true ∧ t.Computes producer.node)
              ∨ (t.kind = .forLoop ∧ loopIndex ctx t.node = bound)
              ∨ (t.kind = .setVariable
                ∧ (ctx.variableOf t.node t.definition).text = bound)) := by
  intro ctx routine loop hkind bound producer kind hsource
  have complete : ctx.Complete := complete_builtin b options
  have hfirst := execOutputs_of_forLoop entersBody_builtin loop hkind
  have hstart := steady_entrySteps ctx entries findings
  have hapart := apart_entrySteps ctx entries findings
  have hcount : "count" ∈ loop.inputs := by
    rw [Turn.inputs, hkind]
    exact List.mem_singleton_self _
  constructor
  · obtain ⟨k, hbound⟩ := loop.exists_bound_walk hkind complete hstart
    rw [loop.operand_eq hcount, hsource] at hbound
    exact ⟨k, hbound⟩
  · refine (loop.assignsUnder_iff hkind hfirst complete hstart hapart).trans
      (exists_congr fun t => (t.assigns_iff complete hsource).trans (or_congr_left ?_))
    refine ⟨fun hcomputes => ⟨?_, hcomputes⟩, And.right⟩
    cases hreader : ctx.isReader producer.node with
    | true => rfl
    | false =>
        -- the producer is on the path with which the loop was left
        have hsteady := loop.running.steady complete hstart
        have hmem := loop.mem_path_of_source complete hsteady hcount hsource hcomputes.isPure
          hreader
        have hbody := loop.steady_body hkind hfirst complete hsteady
        have hbody' := loop.apart_body complete hsteady (loop.running.apart complete hstart hapart)
        exact absurd hcomputes (t.not_computes complete (t.running.steady complete hbody)
          (t.running.apart complete hbody hbody') hmem hreader)

/-! ### A loop whose body adds one to the variable that it counts to -/

namespace CountedVariable

def start : Node := ⟨"start", "function_start", "", {}, [], []⟩

def loop : Node := ⟨"loop", "for_loop", "", {}, [], []⟩

def assignment : Node := ⟨"set", "set_variable", "", {}, [("name", .string "x")], []⟩

def sum : Node := ⟨"sum", "add_numbers", "", {}, [("b", .int 1)], []⟩

def getter : Node := ⟨"get", "get_variable", "", {}, [("name", .string "x")], []⟩

def blueprint : Blueprint where
  kind := .function
  nodes := [start, loop, assignment, sum, getter]
  connections := [⟨"c1", ⟨"start", "exec"⟩, ⟨"loop", "exec"⟩⟩,
    ⟨"c2", ⟨"loop", "loop_body"⟩, ⟨"set", "exec"⟩⟩, ⟨"c3", ⟨"get", "value"⟩, ⟨"loop", "count"⟩⟩,
    ⟨"c4", ⟨"get", "value"⟩, ⟨"sum", "a"⟩⟩, ⟨"c5", ⟨"sum", "result"⟩, ⟨"set", "value"⟩⟩]
  variableValues := [("x", .int 3)]

/-- The emission with which the function starts. -/
def entered : Emission := (entrySteps [start] { findings := {} }).2

/-- The step to the start node. -/
def first : Step := ⟨"start", .empty, 1⟩

/-- The emission from which the loop is written. -/
def started : Emission := (first.visited (.of blueprint .builtin {}) start entered).2

/-- The step to the loop. -/
def second : Step := ⟨"loop", (first.visited (.of blueprint .builtin {}) start entered).2.path, 1⟩

/-- What the loop leaves. -/
def looped : Visited := second.visited (.of blueprint .builtin {}) loop started

/-- The step into the body. -/
def third : Step := ⟨"set", looped.2.path, 2⟩

/-- The way into the body, and what is read there, by evaluation. -/
theorem way_into_counted_body :
    ((Context.of blueprint .builtin {}).index.node? "start" = some start
      ∧ (first.visited (.of blueprint .builtin {}) start entered).1 = [⟨"loop", 1⟩]
      ∧ second.path.contains "loop" = false
      ∧ (Context.of blueprint .builtin {}).index.node? "loop" = some loop
      ∧ (Context.of blueprint .builtin {}).catalog.kind? loop = some .forLoop)
    ∧ (looped.1 = [⟨"set", 2⟩]
      ∧ ((Context.of blueprint .builtin {}).index.outgoing ⟨"loop", "loop_body"⟩).length = 1
      ∧ third.path.contains "set" = false
      ∧ (Context.of blueprint .builtin {}).index.node? "set" = some assignment
      ∧ (Context.of blueprint .builtin {}).catalog.kind? assignment = some .setVariable)
    ∧ ((Context.of blueprint .builtin {}).source loop "count"
        = .temporary "getvariable_4_value" ⟨"get", "value"⟩ .object
      ∧ (Context.of blueprint .builtin {}).source assignment "value"
        = .temporary "add_3_result" ⟨"sum", "result"⟩ .number)
    ∧ (Context.of blueprint .builtin {}).index.isPure (Context.of blueprint .builtin {}).catalog
      "sum" = true
    ∧ (Context.of blueprint .builtin {}).index.node? "sum" = some sum
    ∧ "get" ∈ (Context.of blueprint .builtin {}).pureDependencies sum
    ∧ (Context.of blueprint .builtin {}).isReader "sum" = true
    ∧ (Context.of blueprint .builtin {}).isReader "get" = true := by
  decide +kernel

/-- The bound is assigned in the body, where the variable is taken anew. -/
theorem bound_assigned_in_body :
    ∃ t : Turn (.of blueprint .builtin {}) (entrySteps [start] { findings := {} }).1
        (entrySteps [start] { findings := {} }).2,
      t.node = loop
      ∧ (∃ k : Nat,
        ((writeRoutine (.of blueprint .builtin {}) [start] {}).blocks.body t.step.block)[k]?
        = some (.line (.openFor (loopIndex (.of blueprint .builtin {}) loop)
          (.temporary "getvariable_4_value"))))
      ∧ (writeRoutine (.of blueprint .builtin {}) [start] {}).blocks.AssignsUnder t.bodyBlock
        "getvariable_4_value" := by
  obtain ⟨⟨hstart, hloop, hnew, hnode, hkind⟩, ⟨hexits, hlength, hnew', hset, hkind'⟩,
    ⟨hcount, hvalue⟩, hpure, hsum, hdepends, hreader, hreader'⟩ := way_into_counted_body
  have hfirst : Walking (.of blueprint .builtin {}) (entrySteps [start] { findings := {} }).1
      (entrySteps [start] { findings := {} }).2 [second] started :=
    Walking.start.next rfl hstart hloop
  obtain ⟨t, hstep, -, hbefore, hloopNode, hloopKind⟩ := hfirst.exists_turn hnew hnode hkind
  have hvisited : t.visited = looped := by
    rw [Turn.visited, hstep, hbefore, hloopNode]
    rfl
  have hsteps : t.bodySteps = [third] := by
    rw [Turn.bodySteps, hvisited, Visited.steps, hexits, hloopNode]
    exact congrArg (List.take · [third]) hlength
  have hinto : Walking (.of blueprint .builtin {}) t.bodySteps t.visited.2 [third] looped.2 := by
    rw [hsteps, hvisited]
    exact .start
  obtain ⟨u, -, -, -, hsetNode, hsetKind⟩ := hinto.exists_turn hnew' hset hkind'
  have hinputs : u.inputs = [] ++ "value" :: [] := by
    rw [Turn.inputs, hsetKind]
    rfl
  -- no variable reader is current when the value is read
  have complete : (Context.of blueprint .builtin {}).Complete := complete_builtin blueprint {}
  have hsteady := t.running.steady complete (steady_entrySteps _ [start] {})
  have hbody := t.steady_body hloopKind (execOutputs_of_forLoop entersBody_builtin t hloopKind)
    complete hsteady
  have hfresh := (u.prepared (u.running.steady complete hbody) complete []).fresh
  have hanew : ∀ {id}, (Context.of blueprint .builtin {}).isReader id = true →
      ¬(u.reading []).isCurrent (.of blueprint .builtin {}) id = true := by
    intro id hid
    rw [isCurrent_iff_of_reader hid, hfresh]
    exact List.not_mem_nil
  obtain ⟨⟨k, hhead, -⟩, hiff⟩ := loop_bound_assigned_in_body_iff blueprint {} [start] {} t hloopKind
    "getvariable_4_value" ⟨"get", "value"⟩ .object (hloopNode ▸ hcount)
  refine ⟨t, hloopNode, ⟨k, hloopNode ▸ hhead⟩, hiff.2 ⟨u, Or.inl ⟨hreader', Or.inr ⟨[], "value", [],
    hinputs, "add_3_result", ⟨"sum", "result"⟩, .number, hsetNode ▸ hvalue, hpure, hanew hreader,
    .single ⟨⟨sum, hsum, hdepends⟩, hanew hreader'⟩⟩⟩⟩⟩

end CountedVariable

end Blueprints
