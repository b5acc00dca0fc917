import Mathlib.Logic.Relation
import Blueprints.Catalog.Palette
import Blueprints.Emit.Computation
import Blueprints.Proofs.Wiring.Names
import Blueprints.Proofs.Wiring.Tables

/-! # Pure nodes and what they depend on

    A pure node has one temporary, which holds its value once it is assigned
    (`PureNode`).  Its declared inputs make it depend on other pure nodes
    (`Context.DependsOn`); where that relation has no circle, values can be
    computed in order.

    An input takes its value from nothing, a literal, a parameter or the
    temporary of an output (`supplies_source`).

    Over a catalog whose pure definitions have one output and declare the
    inputs that their kind reads, a context is *complete*: every pure node
    can be computed, and a name tells the output that it stands for.  The
    palette is such a catalog (`complete_builtin`). -/

namespace Blueprints

/-! ## Dependence -/

/-- A node depends on the pure nodes that its declared inputs take their
    values from. -/
def Context.DependsOn (ctx : Context) (x y : String) : Prop :=
  ∃ n, ctx.index.node? x = some n ∧ y ∈ ctx.pureDependencies n

/-- No pure node depends on itself, at once or through others. -/
def Context.Acyclic (ctx : Context) : Prop :=
  ∀ x, ¬Relation.TransGen ctx.DependsOn x x

/-- Nodes that can be ranked above those they depend on are in no circle. -/
theorem Context.acyclic_of_rank {ctx : Context} (rank : String → Nat)
    (h : ∀ n ∈ ctx.blueprint.nodes, ∀ y ∈ ctx.pureDependencies n, rank y < rank n.id)
    (hnode : ∀ {id n}, ctx.index.node? id = some n → n ∈ ctx.blueprint.nodes ∧ n.id = id) :
    ctx.Acyclic := by
  have hstep : ∀ {x y}, ctx.DependsOn x y → rank y < rank x := by
    rintro x y ⟨n, hn, hy⟩
    obtain ⟨hmem, rfl⟩ := hnode hn
    exact h n hmem y hy
  have hpath : ∀ {x y}, Relation.TransGen ctx.DependsOn x y → rank y < rank x := by
    intro x y hxy
    induction hxy with
    | single hone => exact hstep hone
    | tail _ hlast ih => exact Nat.lt_trans (hstep hlast) ih
  intro x hx
  exact Nat.lt_irrefl _ (hpath hx)

/-- What a node depends on are the pure nodes that feed its data inputs. -/
theorem mem_pureDependencies {ctx : Context} {n : Node} {y : String} :
    y ∈ ctx.pureDependencies n ↔
      ∃ d, ctx.definition? n = some d ∧ ctx.index.isPure ctx.catalog y = true
        ∧ ∃ p ∈ d.inputs, p.kind.isExec = false
          ∧ ∃ c, ctx.index.feeding? ⟨n.id, p.id⟩ = some c ∧ c.source.node = y := by
  rw [Context.pureDependencies]
  cases ctx.definition? n with
  | none => simp
  | some d =>
      simp only [List.mem_filter, List.mem_filterMap, Bool.not_eq_true', Option.map_eq_some_iff]
      constructor
      · rintro ⟨⟨p, ⟨hp, hdata⟩, hc⟩, hpure⟩
        exact ⟨d, rfl, hpure, p, hp, hdata, hc⟩
      · rintro ⟨d', hd, hpure, p, hp, hdata, hc⟩
        obtain rfl := Option.some.inj hd
        exact ⟨⟨p, ⟨hp, hdata⟩, hc⟩, hpure⟩

/-! ## Pure nodes -/

/-- All that computing a pure node takes. -/
structure PureNode (ctx : Context) (id : String) where
  node : Node
  definition : Definition
  kind : PureKind
  /-- The name of the temporary that holds the value, and its type. -/
  temporary : String
  type : String
  found : ctx.index.node? id = some node
  known : ctx.definition? node = some definition
  pure : NodeKind.ofDefinition? definition.id = some (.pure kind)
  result : ctx.result? node definition = some (temporary, type)
  /-- The inputs that are read are declared. -/
  declared : ∀ slot ∈ kind.slots, ∃ p ∈ definition.inputs, p.id = slot ∧ p.kind.isExec = false
  /-- Every output stands for the one value. -/
  single : ∀ p ∈ definition.outputs, ctx.names.name? ⟨id, p.id⟩ = some temporary
  outputs : definition.outputs ≠ []

/-- Every pure node can be computed, and names tell outputs apart. -/
structure Context.Complete (ctx : Context) : Prop where
  ids : ∀ {id : String} {n : Node}, ctx.index.node? id = some n → n.id = id
  pureNode : ∀ {id : String}, ctx.index.isPure ctx.catalog id = true → Nonempty (PureNode ctx id)
  names : ∀ {e e' : Endpoint} {t : String}, ctx.names.name? e = some t →
    ctx.names.name? e' = some t → e = e'

/-- A temporary holds the value of a pure node. -/
def Context.Holds (ctx : Context) (t id : String) : Prop :=
  ∃ p : PureNode ctx id, p.temporary = t

/-- The temporary of the node with an id. -/
def Context.temporary? (ctx : Context) (id : String) : Option String :=
  (ctx.index.node? id).bind fun n => (ctx.definition? n).bind fun d =>
    (ctx.result? n d).map Prod.fst

theorem PureNode.temporary?_eq {ctx : Context} {id : String} (p : PureNode ctx id) :
    ctx.temporary? id = some p.temporary := by
  rw [Context.temporary?, p.found, Option.bind_some, p.known, Option.bind_some, p.result]
  rfl

/-- The temporary that is found holds the value of its node. -/
theorem Context.Complete.holds {ctx : Context} (complete : ctx.Complete) {t id : String}
    (hpure : ctx.index.isPure ctx.catalog id = true) (ht : ctx.temporary? id = some t) :
    ctx.Holds t id := by
  obtain ⟨p⟩ := complete.pureNode hpure
  rw [p.temporary?_eq] at ht
  exact ⟨p, Option.some.inj ht⟩

theorem PureNode.temporary_eq {ctx : Context} {id : String} (p p' : PureNode ctx id) :
    p.temporary = p'.temporary :=
  Option.some.inj (p.temporary?_eq.symm.trans p'.temporary?_eq)

/-- A temporary is named for an output of the node whose value it holds. -/
theorem Context.Holds.exists_name {ctx : Context} {t id : String} (h : ctx.Holds t id) :
    ∃ param, ctx.names.name? ⟨id, param⟩ = some t := by
  obtain ⟨pureNode, rfl⟩ := h
  obtain ⟨p, hp⟩ := List.exists_mem_of_ne_nil _ pureNode.outputs
  exact ⟨p.id, pureNode.single p hp⟩

/-- A temporary holds the value of one node. -/
theorem Context.Holds.unique {ctx : Context} (complete : ctx.Complete) {t x y : String}
    (hx : ctx.Holds t x) (hy : ctx.Holds t y) : x = y := by
  obtain ⟨param, hname⟩ := hx.exists_name
  obtain ⟨param', hname'⟩ := hy.exists_name
  exact congrArg Endpoint.node (complete.names hname hname')

/-- A node of a pure kind is pure. -/
theorem isPure_of_kind {ctx : Context} {id : String} {n : Node} {d : Definition} {kind : PureKind}
    (hn : ctx.index.node? id = some n) (hd : ctx.definition? n = some d)
    (hkind : NodeKind.ofDefinition? d.id = some (.pure kind)) :
    ctx.index.isPure ctx.catalog id = true := by
  have hfind : ctx.catalog.find? n.definitionId = some d := hd
  rw [Index.isPure, hn]
  dsimp only
  rw [Catalog.isPure, Catalog.kind?, hfind]
  dsimp only
  rw [hkind]
  rfl

theorem PureNode.isPure {ctx : Context} {id : String} (p : PureNode ctx id) :
    ctx.index.isPure ctx.catalog id = true :=
  isPure_of_kind p.found p.known p.pure

/-! ## Where an input takes its value from -/

/-- What an input can take its value from: nothing, a literal, or what its first
    connection comes from. -/
inductive Context.Supplies (ctx : Context) (n : Node) (param : String) : Source → Prop where
  | undefined : Supplies ctx n param .undefined
  | literal (value : Json) (kind : Option ParamKind) : Supplies ctx n param (.literal value kind)
  | parameter {c : Connection} {p : Node} {d : Definition}
      (hc : ctx.index.feeding? ⟨n.id, param⟩ = some c)
      (hp : ctx.index.node? c.source.node = some p) (hd : ctx.definition? p = some d)
      (hkind : NodeKind.ofDefinition? d.id = some .functionParameter) :
      Supplies ctx n param (.parameter (p.parameterName d) (p.parameterType d))
  | time {c : Connection} {p : Node} {d : Definition} {hook : Hook}
      (hc : ctx.index.feeding? ⟨n.id, param⟩ = some c)
      (hp : ctx.index.node? c.source.node = some p) (hd : ctx.definition? p = some d)
      (hkind : NodeKind.ofDefinition? d.id = some (.lifecycle hook)) :
      Supplies ctx n param (.parameter deltaTime "number")
  | temporary {c : Connection} {p : Node} {d : Definition} {output : Param} {name : String}
      (hc : ctx.index.feeding? ⟨n.id, param⟩ = some c)
      (hp : ctx.index.node? c.source.node = some p) (hd : ctx.definition? p = some d)
      (houtput : d.output? c.source.param = some output)
      (hname : ctx.names.name? ⟨p.id, output.id⟩ = some name) :
      Supplies ctx n param (.temporary name ⟨p.id, output.id⟩ output.kind)

/-- An input without a connection has a literal or nothing. -/
theorem supplies_unconnected (ctx : Context) (n : Node) (param : String) :
    ctx.Supplies n param (.unconnected ctx.catalog n param) := by
  rw [Source.unconnected]
  split
  · exact .literal ..
  · split
    · exact .undefined
    · exact .undefined
    · exact .literal ..

/-- A connection brings a parameter, a temporary or nothing. -/
theorem supplies_connected {ctx : Context} {n : Node} {param : String} {c : Connection}
    (hc : ctx.index.feeding? ⟨n.id, param⟩ = some c) :
    ctx.Supplies n param (.connected ctx.index ctx.catalog ctx.names c) := by
  rw [Source.connected]
  cases hp : ctx.index.node? c.source.node with
  | none => exact .undefined
  | some p =>
      dsimp only
      cases hd : ctx.catalog.find? p.definitionId with
      | none => exact .undefined
      | some d =>
          dsimp only
          split
          case h_1 hkind => exact .parameter hc hp hd hkind
          case' h_2 hook hkind =>
            split
            case isTrue => exact .time hc hp hd hkind
          -- whatever the kind is else, the temporary of the output is taken
          all_goals
            split
            · exact .undefined
            · next output houtput =>
              split
              · next name hname => exact .temporary hc hp hd houtput hname
              · exact .undefined

/-- **An input takes its value from what its source says.** -/
theorem supplies_source (ctx : Context) (n : Node) (param : String) :
    ctx.Supplies n param (ctx.source n param) := by
  rw [Context.source, Source.resolve]
  cases hc : ctx.index.feeding? ⟨n.id, param⟩ with
  | none => exact supplies_unconnected ctx n param
  | some c => exact supplies_connected hc

/-- A temporary that an input takes its value from stands for the output
    that the first connection to the input comes from. -/
theorem source_eq_temporary {ctx : Context} {n : Node} {param t : String} {output : Endpoint}
    {kind : ParamKind} (complete : ctx.Complete)
    (h : ctx.source n param = .temporary t output kind) :
    ctx.names.name? output = some t
      ∧ ∃ c, ctx.index.feeding? ⟨n.id, param⟩ = some c ∧ c.source.node = output.node
        ∧ ∃ producer d p, ctx.index.node? output.node = some producer
          ∧ ctx.definition? producer = some d ∧ p ∈ d.outputs ∧ output = ⟨output.node, p.id⟩ := by
  have hsupplies := supplies_source ctx n param
  rw [h] at hsupplies
  cases hsupplies with
  | @temporary c producer d p _ hc hproducer hd hp hname =>
      have hid := complete.ids hproducer
      refine ⟨hname, c, hc, hid.symm, producer, d, p, ?_, hd, List.mem_of_find?_eq_some hp, rfl⟩
      rw [show (⟨producer.id, p.id⟩ : Endpoint).node = producer.id from rfl, hid]
      exact hproducer

/-- The temporary that an input takes from a pure node holds its value. -/
theorem holds_of_source {ctx : Context} (complete : ctx.Complete) {n : Node} {param t : String}
    {output : Endpoint} {kind : ParamKind} (h : ctx.source n param = .temporary t output kind)
    (hpure : ctx.index.isPure ctx.catalog output.node = true) : ctx.Holds t output.node := by
  obtain ⟨hname, c, -, -, producer, d, p, hproducer, hd, hp, houtput⟩ :=
    source_eq_temporary complete h
  obtain ⟨pureNode⟩ := complete.pureNode hpure
  obtain rfl : pureNode.node = producer := Option.some.inj (pureNode.found.symm.trans hproducer)
  obtain rfl : pureNode.definition = d := Option.some.inj (pureNode.known.symm.trans hd)
  have hsingle := pureNode.single p hp
  rw [← houtput, hname] at hsingle
  exact ⟨pureNode, (Option.some.inj hsingle).symm⟩

/-- A temporary that holds the value of a pure node is taken from that
    node. -/
theorem node_eq_of_holds {ctx : Context} (complete : ctx.Complete) {n : Node} {param t : String}
    {output : Endpoint} {kind : ParamKind} (h : ctx.source n param = .temporary t output kind)
    {id : String} (hholds : ctx.Holds t id) : output.node = id := by
  obtain ⟨hname, -⟩ := source_eq_temporary complete h
  obtain ⟨param', hname'⟩ := hholds.exists_name
  exact congrArg Endpoint.node (complete.names hname hname')

/-- What a pure node reads, it depends on. -/
theorem PureNode.dependsOn {ctx : Context} (complete : ctx.Complete) {id : String}
    (pureNode : PureNode ctx id) {slot t : String} {output : Endpoint} {kind : ParamKind}
    (hslot : slot ∈ pureNode.kind.slots)
    (h : ctx.source pureNode.node slot = .temporary t output kind)
    (hpure : ctx.index.isPure ctx.catalog output.node = true) :
    output.node ∈ ctx.pureDependencies pureNode.node := by
  obtain ⟨-, c, hc, hnode, -⟩ := source_eq_temporary complete h
  obtain ⟨p, hp, rfl, hdata⟩ := pureNode.declared slot hslot
  exact mem_pureDependencies.2 ⟨_, pureNode.known, hpure, p, hp, hdata, c, hc, hnode⟩

/-! ## The palette -/

/-- Whether a definition, if it is pure, has one output and declares the
    inputs that are read. -/
def Definition.isComputable (d : Definition) : Bool :=
  match NodeKind.ofDefinition? d.id with
  | some (.pure kind) =>
    (match d.outputs with
      | [output] => !output.kind.isExec
      | _ => false)
    && kind.slots.all fun slot => d.inputs.any fun p => p.id == slot && !p.kind.isExec
  | _ => true

theorem isComputable_builtin : Catalog.builtin.definitions.all Definition.isComputable = true := by
  decide

theorem Catalog.mem_of_find? {catalog : Catalog} {id : String} {d : Definition}
    (h : catalog.find? id = some d) : d ∈ catalog.definitions := by
  rw [Catalog.find?] at h
  split at h
  · exact List.mem_of_getElem? h
  · exact nomatch h

/-- A pure node has a definition of a pure kind. -/
theorem exists_of_isPure {index : Index} {catalog : Catalog} {id : String}
    (h : index.isPure catalog id = true) :
    ∃ n d kind, index.node? id = some n ∧ catalog.find? n.definitionId = some d
      ∧ NodeKind.ofDefinition? d.id = some (.pure kind) := by
  rw [Index.isPure] at h
  split at h
  · next n hn =>
    rw [Catalog.isPure] at h
    split at h
    · next kind hkind =>
      rw [Catalog.kind?] at hkind
      split at hkind
      · next d hd =>
        cases kind with
        | pure kind => exact ⟨n, d, kind, hn, hd, hkind⟩
        | _ => exact nomatch h
      · exact nomatch hkind
    · exact nomatch h
  · exact nomatch h

/-- A pure definition that can be computed has one output, and it declares the
    inputs that are read. -/
theorem Definition.computable {d : Definition} (h : d.isComputable = true) {kind : PureKind}
    (hkind : NodeKind.ofDefinition? d.id = some (.pure kind)) :
    (∃ output, d.outputs = [output] ∧ output.kind.isExec = false)
      ∧ ∀ slot ∈ kind.slots, ∃ p ∈ d.inputs, p.id = slot ∧ p.kind.isExec = false := by
  rw [isComputable, hkind] at h
  simp only [Bool.and_eq_true, List.all_eq_true, List.any_eq_true, beq_iff_eq,
    Bool.not_eq_true'] at h
  refine ⟨?_, h.2⟩
  have houtputs := h.1
  split at houtputs
  · next output houtput => exact ⟨output, houtput, by simpa using houtputs⟩
  · exact nomatch houtputs

/-- **Over a catalog of such definitions every context is complete.** -/
theorem complete_of_computable (b : Blueprint) {catalog : Catalog} (options : Options)
    (h : catalog.definitions.all Definition.isComputable = true) :
    (Context.of b catalog options).Complete where
  ids h := Index.id_of_node?_build h
  names h h' := Temporaries.allocate_injective b catalog h h'
  pureNode := by
    intro id hpure
    obtain ⟨n, d, kind, hn, hd, hkind⟩ := exists_of_isPure hpure
    have hcomputable := List.all_eq_true.1 h d (Catalog.mem_of_find? hd)
    obtain ⟨⟨output, houtputs, hdata⟩, hslots⟩ := Definition.computable hcomputable hkind
    have hdataOutputs : d.dataOutputs = [output] := by
      rw [Definition.dataOutputs, houtputs]
      simp [hdata]
    obtain rfl : n.id = id := Index.id_of_node?_build hn
    obtain ⟨t, ht⟩ := Temporaries.exists_name?_allocate b catalog (Index.mem_of_node?_build hn) hd
      (hdataOutputs ▸ List.mem_singleton_self output)
    have hresult : (Context.of b catalog options).result? n d
        = some (t, output.kind.typeName) := by
      rw [Context.result?, hdataOutputs]
      dsimp only
      rw [show (Context.of b catalog options).names.name? ⟨n.id, output.id⟩ = some t from ht]
      rfl
    refine ⟨⟨n, d, kind, t, output.kind.typeName, hn, hd, hkind, hresult, hslots, ?_, ?_⟩⟩
    · intro p hp
      rw [houtputs] at hp
      obtain rfl := List.mem_singleton.1 hp
      exact ht
    · rw [houtputs]
      exact List.cons_ne_nil _ _

/-- **Over the palette, every pure node of every blueprint can be
    computed.** -/
theorem complete_builtin (b : Blueprint) (options : Options) :
    (Context.of b .builtin options).Complete :=
  complete_of_computable b options isComputable_builtin

end Blueprints
