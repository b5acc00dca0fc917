import Blueprints.Program.Component
import Blueprints.Proofs.Emit.Accounts

/-! # The parameters that code refers to

    The signature of a routine binds names: a function has the parameters of
    its parameter nodes, and a method has the time since the last frame if
    its hook is given it.  The code of a routine refers to a parameter exactly
    if it feeds one of the inputs that the routine reads
    (`mentions_routine_iff`, `mentions_function_iff`).

    What feeds an input is not asked which routine it belongs to: a parameter
    node feeds methods too, and the time since the last frame feeds functions
    and the methods of all hooks.  So the signature binds what the code refers
    to exactly if no such input is read (`routine_scoped_iff`). -/

namespace Blueprints

open Arena

/-! ## Values in routines -/

section Values

variable {ctx : Context} {o : Operand}

/-- The code of a routine has the values of the inputs that the routine
    reads. -/
theorem mentions_routine_iff (ctx : Context) (entries : List Node) (findings : Findings)
    (ho : ∀ v, o ≠ .literal v) :
    (writeRoutine ctx entries findings).blocks.Mentions o
      ↔ ∃ n slot, (Writing.ofRoutine entries findings).Reads ctx n slot
        ∧ (ctx.source n slot).operand = o := by
  have hidle : ∀ job ∈ (Writing.ofRoutine entries findings).jobs, job.isIdle = true :=
    Writing.forall_mem_ofRoutine (fun _ => rfl) entries findings
  have hnone : ¬(Writing.ofRoutine entries findings).emission.blocks.Mentions o := by
    show ¬(entrySteps entries { findings }).2.blocks.Mentions o
    rw [entrySteps_eq, (goesOn_entries ctx entries findings).quiet.mentions_iff]
    exact not_mentions_new
  rw [← Writing.outcome_ofRoutine, Writing.mentions_outcome_iff
    (placed_ofRoutine ctx entries findings) (fed_of_idle hidle) (followed_of_idle hidle) ho]
  exact or_iff_right hnone

/-- A routine has a root from the start. -/
theorem root_lt_size_writeRoutine (ctx : Context) (entries : List Node) (findings : Findings) :
    Arena.root < (writeRoutine ctx entries findings).blocks.size := by
  rw [← Writing.outcome_ofRoutine]
  exact Nat.lt_of_lt_of_le (steady_entrySteps ctx entries findings).within
    (placed_ofRoutine ctx entries findings).keeps_outcome.size

/-- To read the value that is given back adds the values of the inputs that
    are read for it, its own apart. -/
theorem mentions_ofReturn_iff {e : Emission} (hroot : Arena.root < e.blocks.size) (m : Node)
    (ho : ∀ v, o ≠ .literal v) :
    ((Writing.ofReturn m e).outcome ctx).blocks.Mentions o ∨ (ctx.source m "value").operand = o
      ↔ e.blocks.Mentions o
        ∨ ∃ n slot, (Writing.ofReturn m e).Reads ctx n slot ∧ (ctx.source n slot).operand = o := by
  have hplaced := placed_ofReturn ctx hroot m
  have hpaired := paired_perform ctx (.read Arena.root [] m "value") (e.onPath .empty)
  have hjobs : ((Writing.ofReturn m e).next ctx).jobs
      = ((Job.read Arena.root [] m "value").perform ctx (e.onPath .empty)).1 := List.append_nil _
  have hsame : ((Writing.ofReturn m e).next ctx).emission.blocks = e.blocks := by
    show ((Job.read Arena.root [] m "value").perform ctx (e.onPath .empty)).2.blocks = e.blocks
    have hnoted := agrees_noted ctx [] m "value" (e.onPath .empty)
    rw [Job.perform]
    cases ctx.missing? [] m "value" (e.onPath .empty) with
    | none => exact hnoted.blocks
    | some id => exact hnoted.blocks
  -- behind the first turn every read has its use below it
  have hrest := Writing.mentions_outcome_iff hplaced.next (hjobs ▸ hpaired.1) (hjobs ▸ hpaired.2) ho
  rw [Writing.outcome_next, hsame] at hrest
  rw [hrest, or_assoc]
  refine or_congr Iff.rfl ?_
  constructor
  · rintro (⟨n, slot, ⟨block, active, hcomes⟩, hsource⟩ | hsource)
    · exact ⟨n, slot, ⟨block, active, Writing.comes_cons_iff.2 (Or.inr hcomes)⟩, hsource⟩
    · exact ⟨m, "value", ⟨Arena.root, [], Writing.comes_cons_iff.2 (Or.inl rfl)⟩, hsource⟩
  · rintro ⟨n, slot, ⟨block, active, hcomes⟩, hsource⟩
    rcases Writing.comes_cons_iff.1 hcomes with hfirst | hlater
    · cases hfirst
      exact Or.inr hsource
    · exact Or.inl ⟨n, slot, ⟨block, active, hlater⟩, hsource⟩

end Values

/-! ## Reads of a function -/

/-- The function reads an input: in its body, or for the value that it gives
    back. -/
inductive Context.FunctionReads (ctx : Context) (n : Node) (slot : String) : Prop where
  | body (h : (Writing.ofRoutine (ctx.blueprint.nodes.filter ctx.isFunctionEntry)
      (danglingReports ctx)).Reads ctx n slot)
  | value {m : Node} (hm : returnNode? ctx (writeFunctionBody ctx).routine = some m)
      (hvalue : (ctx.source m "value").type? ≠ none)
      (h : (Writing.ofReturn m (beforeReturn ctx m (writeFunctionBody ctx))).Reads ctx n slot)

section Functions

variable {ctx : Context} {o : Operand}

theorem root_lt_size_writeFunctionBody (ctx : Context) :
    Arena.root < (writeFunctionBody ctx).blocks.size := by
  rw [writeFunctionBody]
  split
  · exact Nat.zero_lt_one
  · exact root_lt_size_writeRoutine ctx _ _

/-- **The body of a function mentions the values of the inputs that it reads.** -/
theorem mentions_writeFunctionBody_iff (ho : ∀ v, o ≠ .literal v) :
    (writeFunctionBody ctx).blocks.Mentions o
      ↔ ∃ n slot, (Writing.ofRoutine (ctx.blueprint.nodes.filter ctx.isFunctionEntry)
        (danglingReports ctx)).Reads ctx n slot ∧ (ctx.source n slot).operand = o := by
  rw [writeFunctionBody]
  cases hentries : ctx.blueprint.nodes.filter ctx.isFunctionEntry with
  | nil =>
      constructor
      · intro hmentions
        exact absurd ((quietly_line (.new) Arena.root rfl).mentions_iff.1 hmentions)
          not_mentions_new
      · rintro ⟨n, slot, ⟨block, active, hcomes⟩, -⟩
        exact absurd hcomes Writing.not_comes_nil
  | cons entry rest => exact mentions_routine_iff ctx (entry :: rest) (danglingReports ctx) ho

theorem root_lt_size_beforeReturn (ctx : Context) (m : Node) :
    Arena.root < (beforeReturn ctx m (writeFunctionBody ctx)).blocks.size :=
  Nat.lt_of_lt_of_le (root_lt_size_writeFunctionBody ctx)
    (quietly_beforeReturn ctx m (writeFunctionBody ctx)).1.keeps.size

theorem root_lt_size_ofReturn (ctx : Context) {e : Emission} (hroot : Arena.root < e.blocks.size)
    (m : Node) : Arena.root < ((Writing.ofReturn m e).outcome ctx).blocks.size :=
  Nat.lt_of_lt_of_le hroot (placed_ofReturn ctx hroot m).keeps_outcome.size

/-- A value is given back in the last line, behind what was written to read
    it. -/
theorem blocks_writeReturn_of_value {e : Emission} {m : Node}
    (hm : returnNode? ctx e.routine = some m) (hvalue : (ctx.source m "value").type? ≠ none) :
    (writeReturn ctx e).2.blocks
      = ((Writing.ofReturn m (beforeReturn ctx m e)).outcome ctx).blocks.line Arena.root
        (.giveBack (ctx.source m "value").operand) := by
  rw [writeReturn_of_value hm hvalue, Emission.blocks_emit, readInput, fst_readWith]
  rfl

/-- **The code of a function** has the values of the inputs that the function
    reads. -/
theorem mentions_function_iff (ho : ∀ v, o ≠ .literal v) :
    (FunctionUnit.build ctx).routine.blocks.Mentions o
      ↔ ∃ n slot, ctx.FunctionReads n slot ∧ (ctx.source n slot).operand = o := by
  show (writeReturn ctx (writeFunctionBody ctx)).2.blocks.Mentions o ↔ _
  by_cases hreturn : ∃ m, returnNode? ctx (writeFunctionBody ctx).routine = some m
      ∧ (ctx.source m "value").type? ≠ none
  · obtain ⟨m, hm, hvalue⟩ := hreturn
    have hquiet := (quietly_beforeReturn ctx m (writeFunctionBody ctx)).1
    have hroot := root_lt_size_beforeReturn ctx m
    rw [blocks_writeReturn_of_value hm hvalue, mentions_line_iff (root_lt_size_ofReturn ctx hroot m)]
    show _ ∨ o ∈ [(ctx.source m "value").operand] ↔ _
    rw [List.mem_singleton, eq_comm, mentions_ofReturn_iff hroot m ho, hquiet.mentions_iff,
      mentions_writeFunctionBody_iff ho]
    constructor
    · rintro (⟨n, slot, hreads, hsource⟩ | ⟨n, slot, hreads, hsource⟩)
      · exact ⟨n, slot, .body hreads, hsource⟩
      · exact ⟨n, slot, .value hm hvalue hreads, hsource⟩
    · rintro ⟨n, slot, hreads | ⟨hm', -, hreads⟩, hsource⟩
      · exact Or.inl ⟨n, slot, hreads, hsource⟩
      · obtain rfl := Option.some.inj (hm.symm.trans hm')
        exact Or.inr ⟨n, slot, hreads, hsource⟩
  · rw [(writeReturn_cases ctx (writeFunctionBody ctx)).resolve_right hreturn,
      mentions_writeFunctionBody_iff ho]
    constructor
    · rintro ⟨n, slot, hreads, hsource⟩
      exact ⟨n, slot, .body hreads, hsource⟩
    · rintro ⟨n, slot, hreads | ⟨hm, hvalue, -⟩, hsource⟩
      · exact ⟨n, slot, hreads, hsource⟩
      · exact absurd ⟨_, hm, hvalue⟩ hreturn

end Functions

/-! ## What feeds an input -/

/-- The kind of the node that feeds an input. -/
def Context.feederKind? (ctx : Context) (n : Node) (slot : String) : Option NodeKind :=
  (ctx.index.feeding? ⟨n.id, slot⟩).bind fun c =>
    (ctx.index.node? c.source.node).bind ctx.catalog.kind?

section Feeding

variable {ctx : Context} {n : Node} {slot name type : String}

/-- An input is fed a parameter by a parameter node, or by a hook with the
    time since the last frame. -/
theorem source_eq_parameter (h : ctx.source n slot = .parameter name type) :
    (∃ id p d, ctx.index.node? id = some p ∧ ctx.definition? p = some d
        ∧ ctx.catalog.kind? p = some .functionParameter
        ∧ ctx.feederKind? n slot = some .functionParameter ∧ name = p.parameterName d)
      ∨ (∃ hook, ctx.feederKind? n slot = some (.lifecycle hook)) ∧ name = deltaTime := by
  have hsupplies := supplies_source ctx n slot
  rw [h] at hsupplies
  have hfeeder : ∀ {c p d}, ctx.index.feeding? ⟨n.id, slot⟩ = some c →
      ctx.index.node? c.source.node = some p → ctx.definition? p = some d →
      ctx.feederKind? n slot = ctx.catalog.kind? p
        ∧ ctx.catalog.kind? p = NodeKind.ofDefinition? d.id := by
    intro c p d hc hp hd
    constructor
    · rw [Context.feederKind?, hc, Option.bind_some, hp, Option.bind_some]
    · rw [Catalog.kind?, show ctx.catalog.find? p.definitionId = some d from hd]
  cases hsupplies with
  | parameter hc hp hd hkind =>
      obtain ⟨hfeeds, hof⟩ := hfeeder hc hp hd
      rw [hkind] at hof
      exact Or.inl ⟨_, _, _, hp, hd, hof, hfeeds.trans hof, rfl⟩
  | @time c p d hook hc hp hd hkind =>
      obtain ⟨hfeeds, hof⟩ := hfeeder hc hp hd
      exact Or.inr ⟨⟨hook, hfeeds.trans (hof.trans hkind)⟩, rfl⟩

end Feeding

/-! ## Scope -/

/-- A routine refers to no parameter but those of some names. -/
def Routine.Scoped (r : Routine) (names : List String) : Prop :=
  ∀ name, r.blocks.Mentions (.parameter name) → name ∈ names

/-- The parameters of a method. -/
def Method.parameters (m : Method) : List String :=
  if m.hook.takesDeltaTime then [deltaTime] else []

/-- A routine is scoped exactly if the parameters that it reads are. -/
theorem Routine.scoped_iff {ctx : Context} {r : Routine} {names : List String}
    {reads : Node → String → Prop}
    (h : ∀ name, r.blocks.Mentions (.parameter name)
      ↔ ∃ n slot, reads n slot ∧ (ctx.source n slot).operand = .parameter name) :
    r.Scoped names
      ↔ ∀ n slot name type, reads n slot → ctx.source n slot = .parameter name type →
        name ∈ names := by
  constructor
  · intro hscoped n slot name type hreads hsource
    refine hscoped name ((h name).2 ⟨n, slot, hreads, ?_⟩)
    rw [hsource]
    rfl
  · intro hreads name hmentions
    obtain ⟨n, slot, hread, hoperand⟩ := (h name).1 hmentions
    cases hsource : ctx.source n slot with
    | parameter name' type =>
        rw [hsource] at hoperand
        cases hoperand
        exact hreads n slot name type hread hsource
    | literal v kind =>
        rw [hsource] at hoperand
        cases hoperand
    | temporary t output kind =>
        rw [hsource] at hoperand
        cases hoperand
    | undefined =>
        rw [hsource] at hoperand
        cases hoperand

/-- A name that a parameter node gives is that of a parameter of the
    function. -/
theorem mem_functionParameters {ctx : Context} {p : Node} {d : Definition}
    (hp : p ∈ ctx.blueprint.nodes) (hkind : ctx.catalog.kind? p = some .functionParameter)
    (hd : ctx.definition? p = some d) :
    p.parameterName d ∈ (functionParameters ctx).map Parameter.name := by
  have hmem : p ∈ ctx.nodesOfKind .functionParameter := by
    refine List.mem_filter.2 ⟨hp, ?_⟩
    rw [hkind]
    exact beq_self_eq_true _
  let parameter : Parameter :=
    { name := p.parameterName d
      type := p.parameterType d
      default? := (p.literal? "default_value").map Json.compact }
  refine List.mem_map.2 ⟨parameter, List.mem_filterMap.2 ⟨p, hmem, ?_⟩, rfl⟩
  rw [hd]
  rfl

/-- **A function binds a parameter that feeds an input** exactly if it comes from a
    parameter node, or one of them is called like the time since the last frame. -/
theorem mem_functionParameters_iff {b : Blueprint} {catalog : Catalog} {options : Options}
    {n : Node} {slot name type : String}
    (h : (Context.of b catalog options).source n slot = .parameter name type) :
    name ∈ (functionParameters (.of b catalog options)).map Parameter.name
      ↔ (Context.of b catalog options).feederKind? n slot = some .functionParameter
        ∨ deltaTime ∈ (functionParameters (.of b catalog options)).map Parameter.name := by
  rcases source_eq_parameter h with ⟨id, p, d, hp, hd, hkind, hfeeds, rfl⟩ | ⟨⟨hook, hfeeds⟩, rfl⟩
  · have hnode : p ∈ b.nodes := Index.mem_of_node?_build hp
    have hmem := mem_functionParameters hnode hkind hd
    exact ⟨fun _ => Or.inl hfeeds, fun _ => hmem⟩
  · rw [hfeeds]
    constructor
    · exact Or.inr
    · rintro (hparameter | hdelta)
      · cases hparameter
      · exact hdelta

/-- **A method binds a parameter that feeds an input** exactly if its hook is given
    the time since the last frame and that is the parameter. -/
theorem Method.mem_parameters_iff {ctx : Context} (m : Method) {n : Node}
    {slot name type : String} (h : ctx.source n slot = .parameter name type) :
    name ∈ m.parameters
      ↔ m.hook.takesDeltaTime = true
        ∧ (ctx.feederKind? n slot = some .functionParameter → name = deltaTime) := by
  have hname : name = deltaTime
      ↔ (ctx.feederKind? n slot = some .functionParameter → name = deltaTime) := by
    rcases source_eq_parameter h with ⟨-, -, -, -, -, -, hfeeds, -⟩ | ⟨-, rfl⟩
    · exact ⟨fun h _ => h, fun h => h hfeeds⟩
    · exact ⟨fun h _ => h, fun _ => rfl⟩
  rw [← hname, parameters]
  cases m.hook.takesDeltaTime with
  | true => simp
  | false => simp

/-- The routine of a method is written from the entries of its hook. -/
theorem exists_writeRoutine_of_mem {ctx : Context} (hooks : List Hook) (f : Findings) {m : Method}
    (hm : m ∈ (writeMethods ctx hooks f).1) :
    ∃ findings, m.routine = (writeRoutine ctx (hookEntries ctx m.hook) findings).routine := by
  induction hooks generalizing f with
  | nil => exact absurd hm List.not_mem_nil
  | cons hook rest ih =>
      rw [writeMethods] at hm
      split at hm
      · exact ih f hm
      · rcases List.mem_cons.1 hm with rfl | hlater
        · exact ⟨f, rfl⟩
        · exact ih _ hlater

/-- **Code refers only to what its signature binds**, exactly if each
    parameter that it reads has come the right way.  In a function that is
    from a parameter node, or the function has a parameter that is named as
    the time since the last frame.  In a method it is the time since the last
    frame, be it from a hook or from a parameter node of that name, and the
    method is given it. -/
theorem routine_scoped_iff (b : Blueprint) (catalog : Catalog) (options : Options) :
    let ctx := Context.of b catalog options
    let names := (FunctionUnit.build ctx).analysis.parameters.map Parameter.name
    ((FunctionUnit.build ctx).routine.Scoped names
        ↔ ∀ n slot name type, ctx.FunctionReads n slot → ctx.source n slot = .parameter name type →
          ctx.feederKind? n slot = some .functionParameter ∨ deltaTime ∈ names)
      ∧ ∀ m ∈ (ComponentUnit.build ctx).methods, ∃ findings,
        m.routine = (writeRoutine ctx (hookEntries ctx m.hook) findings).routine
          ∧ (m.routine.Scoped m.parameters
            ↔ ∀ n slot name type,
              (Writing.ofRoutine (hookEntries ctx m.hook) findings).Reads ctx n slot →
              ctx.source n slot = .parameter name type →
              m.hook.takesDeltaTime = true
                ∧ (ctx.feederKind? n slot = some .functionParameter → name = deltaTime)) := by
  intro ctx names
  have hparameter : ∀ name v, Operand.parameter name ≠ .literal v := by
    intro name v h
    cases h
  constructor
  · rw [Routine.scoped_iff fun name => mentions_function_iff (hparameter name)]
    constructor
    · intro hbound n slot name type hreads hsource
      exact (mem_functionParameters_iff hsource).1 (hbound n slot name type hreads hsource)
    · intro hfed n slot name type hreads hsource
      exact (mem_functionParameters_iff hsource).2 (hfed n slot name type hreads hsource)
  · intro m hm
    obtain ⟨findings, hroutine⟩ := exists_writeRoutine_of_mem Hook.all (danglingReports ctx) hm
    refine ⟨findings, hroutine, ?_⟩
    rw [Routine.scoped_iff fun name => by
      rw [hroutine]
      exact mentions_routine_iff ctx (hookEntries ctx m.hook) findings (hparameter name)]
    constructor
    · intro hbound n slot name type hreads hsource
      exact (m.mem_parameters_iff hsource).1 (hbound n slot name type hreads hsource)
    · intro hfed n slot name type hreads hsource
      exact (m.mem_parameters_iff hsource).2 (hfed n slot name type hreads hsource)

/-! ### The time since the last frame, in two methods -/

namespace SharedDelta

def blueprint : Blueprint where
  kind := .component
  nodes := [⟨"begin", "start", "", {}, [], []⟩, ⟨"tick", "update", "", {}, [], []⟩,
    ⟨"once", "print", "", {}, [], []⟩, ⟨"often", "print", "", {}, [], []⟩]
  connections := [⟨"c1", ⟨"begin", "exec"⟩, ⟨"once", "exec"⟩⟩,
    ⟨"c2", ⟨"tick", "exec"⟩, ⟨"often", "exec"⟩⟩,
    ⟨"c3", ⟨"tick", "deltaTime"⟩, ⟨"once", "value"⟩⟩,
    ⟨"c4", ⟨"tick", "deltaTime"⟩, ⟨"often", "value"⟩⟩]

abbrev context : Context := .of blueprint .builtin {}

theorem both_methods_print_time :
    (ComponentUnit.build context).methods.map (fun m => (m.hook, (m.routine.blocks.body 1)[1]?))
        = [(.start, some (.line (.log (.parameter deltaTime)))),
          (.update, some (.line (.log (.parameter deltaTime))))]
      ∧ ∀ n ∈ blueprint.nodes, context.catalog.kind? n ≠ some .functionParameter := by
  decide +kernel

/-- Both methods print the time since the last frame; it is bound in the
    second one only. -/
theorem first_unscoped_and_second_scoped :
    ∃ first second, (ComponentUnit.build context).methods = [first, second]
      ∧ ¬first.routine.Scoped first.parameters
      ∧ (∃ findings n slot name type,
        (Writing.ofRoutine (hookEntries context first.hook) findings).Reads context n slot
          ∧ context.source n slot = .parameter name type)
      ∧ second.routine.Scoped second.parameters := by
  obtain ⟨hmethods, hkinds⟩ := both_methods_print_time
  obtain ⟨first, rest, hlist, hfirst, hrest⟩ := List.map_eq_cons_iff.1 hmethods
  obtain ⟨second, rfl, hsecond⟩ := List.map_eq_singleton_iff.1 hrest
  obtain ⟨hstart, hline⟩ := Prod.mk.inj hfirst
  obtain ⟨hupdate, -⟩ := Prod.mk.inj hsecond
  have hscope := (routine_scoped_iff blueprint .builtin {}).2
  have hunscoped : ¬first.routine.Scoped first.parameters := by
    intro hscoped
    have hmem := hscoped deltaTime ⟨_, ⟨1, 1, hline⟩, List.mem_singleton_self _⟩
    rw [Method.parameters, hstart] at hmem
    exact absurd hmem List.not_mem_nil
  refine ⟨first, second, hlist, hunscoped, ?_, ?_⟩
  · obtain ⟨findings, -, hiff⟩ := hscope first (by rw [hlist]; exact List.mem_cons_self ..)
    by_contra hnone
    apply hunscoped
    rw [hiff]
    intro n slot name type hreads hsource
    exact absurd ⟨findings, n, slot, name, type, hreads, hsource⟩ hnone
  · obtain ⟨findings, -, hiff⟩ := hscope second
      (by rw [hlist]; exact List.mem_cons_of_mem _ (List.mem_singleton_self _))
    rw [hiff]
    intro n slot name type _ hsource
    refine ⟨by rw [hupdate]; rfl, ?_⟩
    intro hfeeds
    rcases source_eq_parameter hsource with ⟨id, p, d, hp, -, hkind, -, -⟩ | ⟨-, hname⟩
    · have hnode : p ∈ blueprint.nodes := Index.mem_of_node?_build hp
      exact absurd hkind (hkinds p hnode)
    · exact hname

end SharedDelta

end Blueprints
