import Blueprints.Program.Function
import Blueprints.Proofs.Emit.Bindings
import Blueprints.Proofs.Emit.Paths

/-! # The names of a function

    The code of a function binds names for several sorts of things: its
    parameters, the temporaries, the indices of loops, the tasks, the variables
    of the blueprint, the helpers and the function itself.  Names are *made up*
    for some of them and *chosen* in the blueprint for the others.

    Code can bind every name that is made up, and no two things are given the
    same one, unless two loops without an output for their index have the same
    number (`Context.Makes.unique`).  What is chosen is taken as it is: the names
    are right exactly if no chosen name is reserved and none is the name of
    something else (`function_names_hygienic_iff`). -/

namespace Blueprints

/-! ## What a function comes to -/

/-- The function comes to a job: in its body, or for the value that it gives
    back. -/
inductive Context.FunctionComes (ctx : Context) (job : Job) : Prop where
  | body (h : (Writing.ofRoutine (ctx.blueprint.nodes.filter ctx.isFunctionEntry)
      (danglingReports ctx)).Comes ctx job)
  | value {m : Node} (hm : returnNode? ctx (writeFunctionBody ctx).routine = some m)
      (hvalue : (ctx.source m "value").type? ≠ none)
      (h : (Writing.ofReturn m (beforeReturn ctx m (writeFunctionBody ctx))).Comes ctx job)

/-- The function as it has been written. -/
def Context.functionEmission (ctx : Context) : Emission :=
  (writeReturn ctx (writeFunctionBody ctx)).2

section Functions

variable {ctx : Context}

/-- What a function comes to is looked up from its own node. -/
theorem Context.FunctionComes.regular {job : Job} (h : ctx.FunctionComes job) :
    job.Regular ctx := by
  cases h with
  | body h => exact h.regular (Writing.regular_ofRoutine ctx _ _)
  | value hm hvalue h => exact h.regular (Writing.regular_ofReturn ctx _ _)

theorem variableNames_danglingReports (ctx : Context) :
    (danglingReports ctx).variableNames = [] := by
  have hreports : ∀ (message : Connection → Diagnostic) (cs : List Connection) (f : Findings),
      (cs.foldl (fun f c => f.report (message c)) f).variableNames = f.variableNames := by
    intro message cs
    induction cs with
    | nil => exact fun f => rfl
    | cons c rest ih => exact fun f => ih _
  exact hreports _ ctx.index.dangling {}

/-- Nothing is bound before a routine is written. -/
theorem start_not_binds (ctx : Context) (x : Binding) :
    ¬({ findings := danglingReports ctx } : Emission).Binds x := by
  cases x with
  | declared name => exact List.not_mem_nil
  | used name =>
      show name ∉ (danglingReports ctx).variableNames
      rw [variableNames_danglingReports]
      exact List.not_mem_nil

/-- A routine starts without tasks. -/
theorem start_tasksApart (findings : Findings) : ({ findings } : Emission).TasksApart := by
  have hnone : ∀ {x i name}, ¬({ findings } : Emission).Opened x i name := by
    intro x i name hx
    have hbody : (({ findings } : Emission).blocks.body x) = [] := Arena.body_new x
    rw [Emission.Opened, hbody] at hx
    cases hx
  exact ⟨fun hx => absurd hx hnone, fun hx => absurd hx hnone,
    fun name hname => absurd hname List.not_mem_nil⟩

theorem adds_entrySteps (entries : List Node) (e : Emission) :
    e.Adds [] (entrySteps entries e).2 := by
  rw [entrySteps_eq]
  exact adds_spread Arena.root e _

/-- What comes ahead of a return binds nothing. -/
theorem adds_beforeReturn (ctx : Context) (m : Node) (e : Emission) :
    e.Adds [] (beforeReturn ctx m e) := by
  rw [beforeReturn]
  generalize hreported : (if (ctx.nodesOfKind .functionReturn).length > 1 then e.report _ m.id _
    else e) = reported
  have hadds : e.Adds [] reported := by
    rw [← hreported]
    split
    · exact adds_report e ..
    · exact .refl e
  have hpath : ∀ e : Emission, e.Adds [] (e.onPath .empty) := fun e => adds_of_same rfl rfl rfl rfl
  split
  · exact hadds.trans (hpath reported)
  · exact (hadds.trans (adds_plain reported Arena.root rfl)).trans (hpath _)

/-- A function without a value to give back is ended as it is. -/
theorem adds_writeReturn_of_none {e : Emission}
    (h : ¬∃ m, returnNode? ctx e.routine = some m ∧ (ctx.source m "value").type? ≠ none) :
    e.Adds [] (writeReturn ctx e).2 := by
  cases hm : returnNode? ctx e.routine with
  | none =>
      rw [writeReturn, hm]
      exact .refl e
  | some m =>
      cases htype : (ctx.source m "value").type? with
      | none =>
          rw [writeReturn, hm]
          dsimp only
          rw [htype]
          dsimp only
          split
          · exact adds_report e ..
          · exact .refl e
      | some type => exact absurd ⟨m, hm, by rw [htype]; exact Option.some_ne_none type⟩ h

/-- The body of a function is a comment, or the routine that starts at its
    entries. -/
theorem binds_writeFunctionBody_iff (x : Binding) :
    (writeFunctionBody ctx).Binds x
      ↔ ∃ job, (Writing.ofRoutine (ctx.blueprint.nodes.filter ctx.isFunctionEntry)
        (danglingReports ctx)).Comes ctx job ∧ x ∈ job.binds ctx := by
  have hstart := start_not_binds ctx x
  rw [writeFunctionBody]
  cases hentries : ctx.blueprint.nodes.filter ctx.isFunctionEntry with
  | nil =>
      dsimp only
      rw [(adds_plain _ Arena.root rfl).binds]
      constructor
      · rintro (hold | hnone)
        · exact absurd hold hstart
        · exact absurd hnone List.not_mem_nil
      · rintro ⟨job, hcomes, -⟩
        exact absurd hcomes Writing.not_comes_nil
  | cons entry rest =>
      dsimp only
      rw [← Writing.outcome_ofRoutine, Writing.binds_outcome_iff]
      refine or_iff_right ?_
      show ¬(entrySteps (entry :: rest) { findings := danglingReports ctx }).2.Binds x
      rw [(adds_entrySteps _ _).binds, or_iff_left List.not_mem_nil]
      exact hstart

/-- The body of a function keeps its tasks apart, also where nothing starts it. -/
theorem tasksApart_writeFunctionBody (ctx : Context) : (writeFunctionBody ctx).TasksApart := by
  have hstart := start_tasksApart (danglingReports ctx)
  rw [writeFunctionBody]
  split
  · exact (adds_plain _ Arena.root rfl).tasks hstart
  · rw [← Writing.outcome_ofRoutine]
    exact Writing.tasksApart_outcome ((adds_entrySteps _ _).tasks hstart)

/-- **What a function binds** is what the jobs tell that it comes to. -/
theorem binds_function_iff (x : Binding) :
    ctx.functionEmission.Binds x ↔ ∃ job, ctx.FunctionComes job ∧ x ∈ job.binds ctx := by
  rw [Context.functionEmission]
  by_cases hreturn : ∃ m, returnNode? ctx (writeFunctionBody ctx).routine = some m
      ∧ (ctx.source m "value").type? ≠ none
  · obtain ⟨m, hm, hvalue⟩ := hreturn
    rw [writeReturn_of_value hm hvalue, (adds_plain _ Arena.root rfl).binds,
      or_iff_left List.not_mem_nil]
    show ((Writing.ofReturn m (beforeReturn ctx m (writeFunctionBody ctx))).outcome ctx).Binds x ↔ _
    rw [Writing.binds_outcome_iff]
    show (beforeReturn ctx m (writeFunctionBody ctx)).Binds x ∨ _ ↔ _
    rw [(adds_beforeReturn ctx m _).binds, or_iff_left List.not_mem_nil, binds_writeFunctionBody_iff]
    constructor
    · rintro (⟨job, hcomes, hx⟩ | ⟨job, hcomes, hx⟩)
      · exact ⟨job, .body hcomes, hx⟩
      · exact ⟨job, .value hm hvalue hcomes, hx⟩
    · rintro ⟨job, hcomes | ⟨hm', -, hcomes⟩, hx⟩
      · exact Or.inl ⟨job, hcomes, hx⟩
      · obtain rfl := Option.some.inj (hm.symm.trans hm')
        exact Or.inr ⟨job, hcomes, hx⟩
  · rw [(adds_writeReturn_of_none hreturn).binds, or_iff_left List.not_mem_nil,
      binds_writeFunctionBody_iff]
    constructor
    · rintro ⟨job, hcomes, hx⟩
      exact ⟨job, .body hcomes, hx⟩
    · rintro ⟨job, hcomes | ⟨hm, hvalue, -⟩, hx⟩
      · exact ⟨job, hcomes, hx⟩
      · exact absurd ⟨_, hm, hvalue⟩ hreturn

/-- **A function keeps its tasks apart.** -/
theorem tasksApart_function (ctx : Context) : ctx.functionEmission.TasksApart := by
  have hbody := tasksApart_writeFunctionBody ctx
  rw [Context.functionEmission]
  by_cases hreturn : ∃ m, returnNode? ctx (writeFunctionBody ctx).routine = some m
      ∧ (ctx.source m "value").type? ≠ none
  · obtain ⟨m, hm, hvalue⟩ := hreturn
    rw [writeReturn_of_value hm hvalue]
    refine (adds_plain _ Arena.root rfl).tasks ?_
    have hbefore := (adds_beforeReturn ctx m _).tasks hbody
    exact Writing.tasksApart_outcome (w := .ofReturn m (beforeReturn ctx m (writeFunctionBody ctx)))
      hbefore
  · exact (adds_writeReturn_of_none hreturn).tasks hbody

end Functions

/-! ## What names are for -/

/-- What the code of a function has a name for. -/
inductive Entity where
  /-- The parameter at a place of the signature. -/
  | parameter (place : Nat)
  /-- The temporary of an output. -/
  | temporary (output : Endpoint)
  /-- The index of a loop that has no output for it. -/
  | index (loop : String)
  /-- The task that is opened at a place of the code. -/
  | task (block place : Nat)
  /-- A variable of the blueprint, by the name that it is given there. -/
  | stored (name : String)
  | helper (h : Helper)
  | unit
  deriving DecidableEq

/-- A loop that the function comes to, and that has no output for its index. -/
def Context.CountsUnnamed (ctx : Context) (n : Node) : Prop :=
  ctx.names.name? ⟨n.id, "index"⟩ = none ∧ ∃ block d, ctx.FunctionComes (.leave block n d .forLoop)

/-- The names that are made up. -/
inductive Context.Makes (ctx : Context) : Entity → String → Prop where
  | temporary {output : Endpoint} {name : String} (hname : ctx.names.name? output = some name)
      (hdeclared : name ∈ ctx.functionEmission.routine.declared) :
      Makes ctx (.temporary output) name
  | index {n : Node} (hloop : ctx.CountsUnnamed n) : Makes ctx (.index n.id) (loopIndex ctx n)
  | task {x i : Nat} {name : String} (hopened : ctx.functionEmission.Opened x i name) :
      Makes ctx (.task x i) name
  | helper {h : Helper} (hcalled : h ∈ ctx.functionEmission.findings.helpers) :
      Makes ctx (.helper h) h.name

/-- The names that are chosen in the blueprint. -/
inductive Context.Chooses (ctx : Context) : Entity → String → Prop where
  | parameter {i : Nat} {p : Parameter} (hp : (functionParameters ctx)[i]? = some p) :
      Chooses ctx (.parameter i) p.name
  | given {name : String} (hname : name ∈ ctx.blueprint.variableValues.map Prod.fst) :
      Chooses ctx (.stored name) (Text.identifier name)
  | used {name : String} {job : Job} (hcomes : ctx.FunctionComes job) (hname : name ∈ job.uses) :
      Chooses ctx (.stored name) (Text.identifier name)
  | unit : Chooses ctx .unit (unitName ctx.blueprint ctx.options)

/-- A name is introduced for something. -/
def Context.Introduces (ctx : Context) (x : Entity) (name : String) : Prop :=
  ctx.Makes x name ∨ ctx.Chooses x name

/-- The names that the text of a function binds. -/
inductive FunctionUnit.BindsName (u : FunctionUnit) (b : Blueprint) (options : Options)
    (name : String) : Prop where
  | parameter (h : name ∈ u.parameters.map Parameter.name)
  | declared (h : name ∈ u.routine.declared)
  | task (h : u.routine.blocks.Has (.openTask name))
  | stored (h : name ∈ (variableDeclarations b u.findings.variableNames).map Declaration.name)
  | helper (h : name ∈ (Helper.inOrder u.findings.helpers).map Helper.name)
  | unit (h : name = unitName b options)

/-- Code can bind all names, and none is that of two things. -/
structure Context.Hygienic (ctx : Context) : Prop where
  bindable : ∀ x name, ctx.Introduces x name → Text.isBindable name = true
  distinct : ∀ x y name, ctx.Introduces x name → ctx.Introduces y name → x = y

section Names

variable {ctx : Context} {x y : Entity} {name : String}

/-- A temporary that is read is the one that was allocated for its output. -/
theorem name?_of_source {n : Node} {param t : String} {output : Endpoint} {kind : ParamKind}
    (h : ctx.source n param = .temporary t output kind) : ctx.names.name? output = some t := by
  have hsupplies := supplies_source ctx n param
  rw [h] at hsupplies
  cases hsupplies with
  | temporary _ _ _ _ hname => exact hname

/-- A name that a job declares is that of an output, or of a loop that has none
    for its index. -/
theorem declares_cases {job : Job} (hregular : job.Regular ctx) (h : name ∈ job.declares ctx) :
    (∃ output, ctx.names.name? output = some name)
      ∨ ∃ block n d, job = .leave block n d .forLoop
        ∧ ctx.names.name? ⟨n.id, "index"⟩ = none ∧ name = loopIndex ctx n := by
  cases job with
  | read block active n param =>
      rw [Job.declares] at h
      split at h
      · next t output kind hsource =>
        obtain rfl := List.mem_singleton.1 h
        exact Or.inl ⟨output, name?_of_source hsource⟩
      · exact absurd h List.not_mem_nil
  | assign block n d kind t type =>
      obtain ⟨-, -, hresult⟩ := hregular
      obtain rfl := List.mem_singleton.1 h
      rw [Context.result?] at hresult
      split at hresult
      · cases hresult
      · next output _ _ =>
        obtain ⟨t, ht, heq⟩ := Option.map_eq_some_iff.1 hresult
        cases heq
        exact Or.inl ⟨_, ht⟩
  | leave block n d kind =>
      cases kind with
      | forLoop =>
          obtain rfl := List.mem_singleton.1 h
          cases hname : ctx.names.name? ⟨n.id, "index"⟩ with
          | none => exact Or.inr ⟨block, n, d, rfl, hname, rfl⟩
          | some t =>
              refine Or.inl ⟨⟨n.id, "index"⟩, ?_⟩
              rw [loopIndex, hname]
              rfl
      | _ => exact absurd h List.not_mem_nil
  | visit step => exact absurd h List.not_mem_nil
  | compute block active id => exact absurd h List.not_mem_nil
  | settle id => exact absurd h List.not_mem_nil
  | endRead => exact absurd h List.not_mem_nil

/-- The name of a unit is a word exactly if what stands ahead of it is. -/
theorem isWord_unitName_iff {b : Blueprint} {options : Options} :
    Text.isWord (unitName b options).toList = true
      ↔ options.functionPrefix = "" ∨ Text.isWord options.functionPrefix.toList = true := by
  rw [unitName, String.toList_append, Text.isWord_append_iff (Text.isWord_identifier _),
    String.toList_eq_nil_iff]

/-- To add declarations adds their names and no others. By induction on the
    declarations. -/
theorem mem_foldl_addDeclaration {new ds : List Declaration} :
    name ∈ (new.foldl addDeclaration ds).map Declaration.name
      ↔ name ∈ ds.map Declaration.name ∨ name ∈ new.map Declaration.name := by
  induction new generalizing ds with
  | nil => simp
  | cons d rest ih =>
      have hstep : name ∈ (addDeclaration ds d).map Declaration.name
          ↔ name ∈ ds.map Declaration.name ∨ name = d.name := by
        rw [addDeclaration]
        split
        · next hany =>
          -- dropped, as there is one of that name already
          obtain ⟨d', hd', hname⟩ := List.any_eq_true.1 hany
          constructor
          · exact Or.inl
          · rintro (hold | rfl)
            · exact hold
            · exact List.mem_map.2 ⟨d', hd', beq_iff_eq.1 hname⟩
        · simp
      rw [List.foldl_cons, ih, hstep, List.map_cons, List.mem_cons, or_assoc]

/-- **The variables that are declared** are those that are given a value and those
    that are used. -/
theorem mem_variableDeclarations {b : Blueprint} {used : List String} :
    name ∈ (variableDeclarations b used).map Declaration.name
      ↔ (∃ given ∈ b.variableValues.map Prod.fst, name = Text.identifier given) ∨ name ∈ used := by
  rw [variableDeclarations, mem_foldl_addDeclaration, List.map_append, List.mem_append,
    List.map_map, List.map_map]
  constructor
  · rintro (hnone | hgiven | hused)
    · exact absurd hnone List.not_mem_nil
    · obtain ⟨field, hfield, rfl⟩ := List.mem_map.1 hgiven
      exact Or.inl ⟨field.1, List.mem_map_of_mem hfield, rfl⟩
    · obtain ⟨_, hmem, rfl⟩ := List.mem_map.1 hused
      exact Or.inr hmem
  · rintro (⟨given, hgiven, rfl⟩ | hused)
    · obtain ⟨field, hfield, rfl⟩ := List.mem_map.1 hgiven
      exact Or.inr (Or.inl (List.mem_map.2 ⟨field, hfield, rfl⟩))
    · exact Or.inr (Or.inr (List.mem_map.2 ⟨name, hused, rfl⟩))

/-- The temporaries of a function are those that its jobs declare. -/
theorem mem_declared_iff :
    name ∈ ctx.functionEmission.routine.declared
      ↔ ∃ job, ctx.FunctionComes job ∧ name ∈ job.declares ctx := by
  have hbinds : name ∈ ctx.functionEmission.routine.declared ↔ _ :=
    binds_function_iff (.declared name)
  rw [hbinds]
  simp [Job.binds]

/-- The variables that a function uses are those of its jobs, as identifiers. -/
theorem mem_variableNames_iff :
    name ∈ ctx.functionEmission.findings.variableNames
      ↔ ∃ job, ctx.FunctionComes job ∧ ∃ given ∈ job.uses, name = Text.identifier given := by
  have hbinds : name ∈ ctx.functionEmission.findings.variableNames ↔ _ :=
    binds_function_iff (.used name)
  rw [hbinds]
  simp [Job.binds, eq_comm]

/-- **The text of a function binds the names that are introduced.** -/
theorem bindsName_iff :
    (FunctionUnit.build ctx).BindsName ctx.blueprint ctx.options name
      ↔ ∃ x, ctx.Introduces x name := by
  constructor
  · intro h
    cases h with
    | parameter h =>
        obtain ⟨p, hp, rfl⟩ := List.mem_map.1 h
        obtain ⟨i, hi⟩ := List.mem_iff_getElem?.1 hp
        exact ⟨.parameter i, Or.inr (.parameter hi)⟩
    | declared h =>
        obtain ⟨job, hcomes, hdeclares⟩ := mem_declared_iff.1 h
        rcases declares_cases hcomes.regular hdeclares with
          ⟨output, hname⟩ | ⟨block, n, d, rfl, hnone, rfl⟩
        · exact ⟨.temporary output, Or.inl (.temporary hname h)⟩
        · exact ⟨.index n.id, Or.inl (.index ⟨hnone, block, d, hcomes⟩)⟩
    | task h =>
        obtain ⟨x, i, hopened⟩ := h
        exact ⟨.task x i, Or.inl (.task hopened)⟩
    | stored h =>
        rcases mem_variableDeclarations.1 h with ⟨given, hgiven, rfl⟩ | hused
        · exact ⟨.stored given, Or.inr (.given hgiven)⟩
        · obtain ⟨job, hcomes, given, hgiven, rfl⟩ := mem_variableNames_iff.1 hused
          exact ⟨.stored given, Or.inr (.used hcomes hgiven)⟩
    | helper h =>
        obtain ⟨k, hk, rfl⟩ := List.mem_map.1 h
        exact ⟨.helper k, Or.inl (.helper (List.contains_iff_mem.1 (List.mem_filter.1 hk).2))⟩
    | unit h => exact ⟨.unit, Or.inr (h ▸ .unit)⟩
  · rintro ⟨x, hmakes | hchooses⟩
    · cases hmakes with
      | temporary hname hdeclared => exact .declared hdeclared
      | index hloop =>
          obtain ⟨-, block, d, hcomes⟩ := hloop
          exact .declared (mem_declared_iff.2 ⟨_, hcomes, List.mem_singleton_self _⟩)
      | task hopened => exact .task ⟨_, _, hopened⟩
      | helper hcalled =>
          refine .helper (List.mem_map_of_mem (List.mem_filter.2 ⟨?_, ?_⟩))
          · exact Helper.mem_all _
          · exact List.contains_iff_mem.2 hcalled
    · cases hchooses with
      | parameter hp => exact .parameter (List.mem_map_of_mem (List.mem_of_getElem? hp))
      | given hname => exact .stored (mem_variableDeclarations.2 (Or.inl ⟨_, hname, rfl⟩))
      | used hcomes hname =>
          exact .stored (mem_variableDeclarations.2
            (Or.inr (mem_variableNames_iff.2 ⟨_, hcomes, _, hname, rfl⟩)))
      | unit => exact .unit rfl

/-! ## Names that are made up -/

/-- The sort of name that is made up for something. -/
def Entity.nameSort : Entity → Text.NameSort
  | .temporary _ => .temporary
  | .index _ => .index
  | .task _ _ => .task
  | _ => .plain

/-- No two loops that count without an output for it have the same number. -/
def Context.CountsApart (ctx : Context) : Prop :=
  ∀ n n', ctx.CountsUnnamed n → ctx.CountsUnnamed n' → n.numeral = n'.numeral → n.id = n'.id

/-- A loop without an output for its index is named for its number. -/
theorem loopIndex_of_none {n : Node} (h : ctx.names.name? ⟨n.id, "index"⟩ = none) :
    loopIndex ctx n = "index_" ++ n.numeral := by
  rw [loopIndex, h]
  rfl

theorem Helper.name_injective {h h' : Helper} (heq : h.name = h'.name) : h = h' := by
  have hall : ∀ h ∈ all, ∀ h' ∈ all, h.name = h'.name → h = h' := by decide
  exact hall h h.mem_all h' h'.mem_all heq

section MadeUp

variable {b : Blueprint} {catalog : Catalog} {options : Options}

theorem name?_injective {e e' : Endpoint}
    (h : (Context.of b catalog options).names.name? e = some name)
    (h' : (Context.of b catalog options).names.name? e' = some name) : e = e' :=
  Temporaries.allocate_injective b catalog h h'

/-- **The sort of a made-up name** tells what it is for. -/
theorem Context.Makes.madeUp (h : (Context.of b catalog options).Makes x name) :
    Text.MadeUp x.nameSort name := by
  have htasks := tasksApart_function (Context.of b catalog options)
  cases h with
  | temporary hname _ => exact madeUp_of_name? hname
  | index hloop =>
      rw [loopIndex_of_none hloop.1]
      exact madeUp_index _
  | task hopened => exact htasks.named _ (htasks.mem hopened)
  | helper _ => exact madeUp_helper _

/-- **No two things are given the same made-up name**, except for loops. -/
theorem Context.Makes.unique (hloops : (Context.of b catalog options).CountsApart)
    (hx : (Context.of b catalog options).Makes x name)
    (hy : (Context.of b catalog options).Makes y name) : x = y := by
  -- the sort is read off the name, so only things of one sort are left to compare
  have hsort : x.nameSort = y.nameSort := hx.madeUp.sort_eq.symm.trans hy.madeUp.sort_eq
  cases hx with
  | temporary hname _ =>
      cases hy with
      | temporary hname' _ => rw [name?_injective hname hname']
      | _ => cases hsort
  | @index n hloop =>
      generalize hname : loopIndex (Context.of b catalog options) n = name at hy
      cases hy with
      | @index n' hloop' =>
          rw [loopIndex_of_none hloop.1, loopIndex_of_none hloop'.1] at hname
          rw [hloops n n' hloop hloop' (String.append_right_inj _ |>.1 hname)]
      | _ => cases hsort
  | task hopened =>
      cases hy with
      | task hopened' =>
          obtain ⟨rfl, rfl⟩ := (tasksApart_function _).unique hopened hopened'
          rfl
      | _ => cases hsort
  | @helper h _ =>
      generalize hname : h.name = name at hy
      cases hy with
      | helper _ => rw [Helper.name_injective hname]
      | _ => cases hsort

end MadeUp

/-! ## Names that are chosen -/

/-- A chosen name is a word, that of the function if a word or nothing stands
    ahead of it. -/
theorem Context.Chooses.isWord (h : ctx.Chooses x name)
    (hahead : ctx.options.functionPrefix = ""
      ∨ Text.isWord ctx.options.functionPrefix.toList = true) :
    Text.isWord name.toList = true := by
  cases h with
  | @parameter i p hp =>
      obtain ⟨n, -, hn⟩ := List.mem_filterMap.1 (List.mem_of_getElem? hp)
      obtain ⟨d, -, rfl⟩ := Option.map_eq_some_iff.1 hn
      exact Text.isWord_identifier _
  | given _ => exact Text.isWord_identifier _
  | used _ _ => exact Text.isWord_identifier _
  | unit => exact isWord_unitName_iff.2 hahead

/-- **The names of a function** are those that its text binds.  They are right if
    the names that the blueprint chooses are: words that are not reserved, and
    none of them the name of something else.  What is made up is right by
    itself, but for the indices of loops that have the same number. -/
theorem function_names_hygienic_iff (b : Blueprint) (catalog : Catalog) (options : Options) :
    let ctx := Context.of b catalog options
    (∀ name, (FunctionUnit.build ctx).BindsName b options name ↔ ∃ x, ctx.Introduces x name)
      ∧ (ctx.Hygienic
        ↔ (options.functionPrefix = "" ∨ Text.isWord options.functionPrefix.toList = true)
          ∧ (∀ x name, ctx.Chooses x name → name ∉ Text.reservedWords)
          ∧ (∀ x y name, ctx.Chooses x name → ctx.Introduces y name → x = y)
          ∧ ctx.CountsApart) := by
  intro ctx
  refine ⟨fun name => bindsName_iff, ?_⟩
  constructor
  · intro h
    have hchosen : ∀ x name, ctx.Chooses x name → _ := fun x name hx =>
      Text.isBindable_iff.1 (h.bindable x name (Or.inr hx))
    refine ⟨isWord_unitName_iff.1 (hchosen .unit _ .unit).1, fun x name hx => (hchosen x name hx).2,
      fun x y name hx hy => h.distinct x y name (Or.inr hx) hy, ?_⟩
    intro n n' hn hn' hnumeral
    have hindex : loopIndex ctx n = loopIndex ctx n' := by
      rw [loopIndex_of_none hn.1, loopIndex_of_none hn'.1, hnumeral]
    have hmade : ctx.Makes (.index n'.id) (loopIndex ctx n) := hindex ▸ .index hn'
    exact Entity.index.inj (h.distinct _ _ _ (Or.inl (.index hn)) (Or.inl hmade))
  · rintro ⟨hahead, hreserved, hapart, hloops⟩
    constructor
    · rintro x name (hmade | hchosen)
      · exact hmade.madeUp.bindable
      · exact Text.isBindable_iff.2 ⟨hchosen.isWord hahead, hreserved x name hchosen⟩
    · rintro x y name (hx | hx) hy
      · rcases hy with hy | hy
        · exact hx.unique hloops hy
        · exact (hapart y x name hy (Or.inl hx)).symm
      · exact hapart x y name hx hy

end Names

/-! ## The same name twice -/

namespace TwoParameters

/-- A function that prints the sum of its parameters. -/
def blueprint (second : String) : Blueprint where
  name := "Total"
  kind := .function
  nodes := [⟨"begin", "function_start", "", {}, [], []⟩,
    ⟨"first", "function_parameter", "", {}, [], []⟩,
    ⟨"second", "function_parameter", "", {}, [("param_name", .string second)], []⟩,
    ⟨"sum", "add_numbers", "", {}, [], []⟩, ⟨"show", "print", "", {}, [], []⟩]
  connections := [⟨"c1", ⟨"begin", "exec"⟩, ⟨"show", "exec"⟩⟩,
    ⟨"c2", ⟨"first", "value"⟩, ⟨"sum", "a"⟩⟩, ⟨"c3", ⟨"second", "value"⟩, ⟨"sum", "b"⟩⟩,
    ⟨"c4", ⟨"sum", "result"⟩, ⟨"show", "value"⟩⟩]

abbrev context (second : String) : Context := .of (blueprint second) .builtin {}

/-- What the function has names for. -/
def names : List (Entity × String) :=
  [(.parameter 0, "param"), (.parameter 1, "other"), (.temporary ⟨"sum", "result"⟩, "add_3_result"),
    (.helper .add, "add"), (.helper .log, "log"), (.unit, "BP_Total")]

theorem names_for_other_and_for_param :
    let e := (context "other").functionEmission
    (functionParameters (context "other")).map Parameter.name = ["param", "other"]
      ∧ e.routine.declared = ["add_3_result"] ∧ e.routine.locals = []
      ∧ e.findings.variableNames = [] ∧ e.findings.helpers = [.add, .log]
      ∧ (context "other").names.name? ⟨"sum", "result"⟩ = some "add_3_result"
      ∧ unitName (blueprint "other") {} = "BP_Total"
      ∧ (functionParameters (context "param")).map Parameter.name = ["param", "param"] := by
  decide +kernel

/-- All that the function introduces is on the list, by evaluation of its jobs. -/
theorem mem_names {x : Entity} {name : String} (h : (context "other").Introduces x name) :
    (x, name) ∈ names := by
  obtain ⟨hparameters, hdeclared, hlocals, hused, hhelpers, hsum, hunit, -⟩ := names_for_other_and_for_param
  rcases h with hmade | hchosen
  · have hmadeUp := hmade.madeUp
    cases hmade with
    | temporary hname hmem =>
        rw [hdeclared] at hmem
        obtain rfl := List.mem_singleton.1 hmem
        rw [name?_injective hname hsum]
        decide
    | index hloop =>
        obtain ⟨-, block, d, hcomes⟩ := hloop
        -- the only name that is declared is that of a temporary
        have hmem := mem_declared_iff.2 ⟨_, hcomes, List.mem_singleton_self _⟩
        rw [hdeclared] at hmem
        have hsort : Text.nameSort _ = .index := hmadeUp.sort_eq
        rw [List.mem_singleton.1 hmem] at hsort
        exact absurd hsort (by decide)
    | task hopened =>
        have hmem := (tasksApart_function _).mem hopened
        rw [hlocals] at hmem
        exact absurd hmem List.not_mem_nil
    | helper hmem =>
        rw [hhelpers] at hmem
        rcases List.mem_cons.1 hmem with rfl | hlog
        · decide
        · obtain rfl := List.mem_singleton.1 hlog
          decide
  · cases hchosen with
    | @parameter i p hp =>
        have hname : some p.name = ["param", "other"][i]? := by
          rw [← hparameters, List.getElem?_map, hp]
          rfl
        rcases i with _ | _ | i
        · rw [Option.some.inj hname]
          decide
        · rw [Option.some.inj hname]
          decide
        · cases hname
    | given hname => cases hname
    | used hcomes hname =>
        have hmem := mem_variableNames_iff.2 ⟨_, hcomes, _, hname, rfl⟩
        rw [hused] at hmem
        exact absurd hmem List.not_mem_nil
    | unit =>
        show (Entity.unit, unitName (blueprint "other") {}) ∈ names
        rw [hunit]
        decide

/-- The names are right if the second parameter has one of its own, and wrong if
    it has the name that the first one has by default. -/
theorem hygienic_if_renamed : (context "other").Hygienic ∧ ¬(context "param").Hygienic := by
  constructor
  · refine (function_names_hygienic_iff (blueprint "other") .builtin {}).2.2 ⟨?_, ?_, ?_, ?_⟩
    · decide
    · intro x name hx
      have hreserved : ∀ entry ∈ names, entry.2 ∉ Text.reservedWords := by decide
      exact hreserved _ (mem_names (Or.inr hx))
    · intro x y name hx hy
      have hdistinct : ∀ entry ∈ names, ∀ entry' ∈ names, entry.2 = entry'.2 → entry.1 = entry'.1 := by
        decide
      exact hdistinct _ (mem_names (Or.inr hx)) _ (mem_names hy) rfl
    · intro n n' hn _ _
      have hindex : ∀ entry ∈ names, entry.1.nameSort ≠ .index := by decide
      exact absurd rfl (hindex _ (mem_names (Or.inl (.index hn))))
  · intro h
    obtain ⟨-, -, hapart, -⟩ := (function_names_hygienic_iff (blueprint "param") .builtin {}).2.1 h
    obtain ⟨-, -, -, -, -, -, -, hparameters⟩ := names_for_other_and_for_param
    obtain ⟨p, rest, hlist, hp, hrest⟩ := List.map_eq_cons_iff.1 hparameters
    obtain ⟨q, rfl, hq⟩ := List.map_eq_singleton_iff.1 hrest
    have hfirst : (context "param").Chooses (.parameter 0) p.name := .parameter (by rw [hlist]; rfl)
    have hsecond : (context "param").Chooses (.parameter 1) q.name := .parameter (by rw [hlist]; rfl)
    rw [hp] at hfirst
    rw [hq] at hsecond
    cases hapart _ _ _ hfirst (Or.inr hsecond)

end TwoParameters

end Blueprints
