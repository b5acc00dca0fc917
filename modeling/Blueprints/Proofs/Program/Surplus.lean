import Blueprints.Proofs.Program.InStep
import Blueprints.Proofs.Wiring.Readers

/-! # Surplus connections

    An input takes its value from the first connection that reaches it.  A
    later one is *surplus*: no value goes along it.  It is filed in the tables
    all the same, and there it shows in two ways.  The variable readers are
    found along all connections that leave a node, so a surplus connection may
    make its target one (`isReader_eq_iff`); and where its source is
    filed under the text of an output that carries control, control goes along
    it.  Where neither is so, the blueprint compiles to the same program
    without it (`surplus_connection_ignored`). -/

namespace Blueprints

/-- A blueprint less a connection whose ends exist, at an input that an earlier
    one reaches. -/
structure Blueprint.Sheds (b : Blueprint) (c : Connection) (b' : Blueprint) : Prop where
  known : (Index.build b).knows c = true
  split : ∃ before after, b.connections = before ++ c :: after
    ∧ b' = { b with connections := before ++ after }
    ∧ ∃ first ∈ before, (Index.build b).knows first = true ∧ first.target = c.target

/-- No output that carries control is filed under the text of a connection's
    source. -/
def Blueprint.CarriesValue (b : Blueprint) (catalog : Catalog) (c : Connection) : Prop :=
  ∀ n ∈ b.nodes, ∀ d, catalog.find? n.definitionId = some d → ∀ p ∈ d.execOutputs,
    (⟨n.id, p.id⟩ : Endpoint).key ≠ c.source.key

/-- If a connection leads from a variable reader to a pure node, that is one
    too. -/
def Blueprint.KeepsReaders (b : Blueprint) (catalog : Catalog) (c : Connection) : Prop :=
  ReadsVariable b catalog c.source.node → (Index.build b).isPure catalog c.target.node = true →
    ReadsVariable b catalog c.target.node

/-! ## Reports of a kind -/

/-- The reports that are not of a kind. -/
def Diagnostics.others (kind : DiagnosticKind) (ds : Diagnostics) : Diagnostics :=
  ds.filter (·.kind != kind)

/-- A report of a kind adds nothing to those of other kinds. -/
theorem Diagnostics.others_report (kind : DiagnosticKind) (ds : Diagnostics) (d : Diagnostic) :
    (ds.report d).others kind
      = if d.kind = kind then ds.others kind else (ds.others kind).report d := by
  have hmem (hother : d.kind ≠ kind) : d ∈ ds.others kind ↔ d ∈ ds := by
    rw [others, List.mem_filter, bne_iff_ne]
    exact and_iff_left hother
  by_cases hkind : d.kind = kind
  · rw [if_pos hkind, report]
    split
    · rfl
    · simp [others, hkind]
  · rw [if_neg hkind, report, report, List.contains_eq_mem, List.contains_eq_mem]
    simp only [hmem hkind]
    split
    · rfl
    · simp [others, hkind]

/-- The diagnostics agree in the reports that are not of a kind. -/
def Reporting.agreeing (kind : DiagnosticKind) : Reporting :=
  fun ds ds' => ds'.others kind = ds.others kind

namespace Reporting

variable {kind : DiagnosticKind}

theorem agreeing_report {ds ds' : Diagnostics} (h : agreeing kind ds ds') (d : Diagnostic) :
    agreeing kind (ds.report d) (ds'.report d) := by
  rw [agreeing] at h ⊢
  rw [Diagnostics.others_report, Diagnostics.others_report, h]

/-- The report about several connections is of the kind that may differ. -/
theorem alike_reportFanIn {e e' : Emission} (h : e.Alike (agreeing .shapeAmbiguity) e')
    (ctx ctx' : Context) (n : Node) (param : String) :
    (e.reportFanIn ctx n param).Alike (agreeing .shapeAmbiguity)
      (e'.reportFanIn ctx' n param) := by
  -- a report about an input leaves all but the reports of its kind
  have hfan : ∀ (ctx : Context) (e : Emission), ∃ ds : Diagnostics,
      e.reportFanIn ctx n param
          = e.withFindings { e.findings with diagnostics := ds }
        ∧ ds.others .shapeAmbiguity
          = Diagnostics.others .shapeAmbiguity e.findings.diagnostics := by
    intro ctx e
    rw [Emission.reportFanIn]
    split
    · refine ⟨_, rfl, ?_⟩
      rw [Diagnostics.others_report]
      exact if_pos rfl
    · exact ⟨e.findings.diagnostics, rfl, rfl⟩
  obtain ⟨f, rfl, hf⟩ := h
  obtain ⟨ds, hfirst, hds⟩ := hfan ctx e
  obtain ⟨ds', hsecond, hds'⟩ := hfan ctx' (e.withFindings f)
  rw [hfirst, hsecond]
  refine ⟨{ f with diagnostics := ds' }, rfl, hf.helpers, hf.variableNames, ?_⟩
  show ds'.others .shapeAmbiguity = ds.others .shapeAmbiguity
  rw [hds, hds']
  exact hf.diagnostics

end Reporting

/-! ## Connections that carry values -/

variable {b b' : Blueprint} {c : Connection} {catalog : Catalog}

/-- An output that carries control is one of those of its definition. -/
theorem Definition.exists_of_isExecOutput {d : Definition} {id : String}
    (h : d.isExecOutput id = true) : ∃ p ∈ d.execOutputs, p.id = id := by
  rw [isExecOutput] at h
  split at h
  · next p hp =>
    have hid := List.find?_some (show d.outputs.find? (·.id == id) = some p from hp)
    exact ⟨p, List.mem_filter.2 ⟨List.mem_of_find?_eq_some hp, h⟩, beq_iff_eq.1 hid⟩
  · cases h

/-- A connection carries a value if its source is declared as an output for
    one, where ids can be told apart. -/
theorem carriesValue_of_mem_dataOutputs (hids : (b.nodes.map Node.id).Nodup)
    (hcolon : ∀ n ∈ b.nodes, ':' ∉ n.id.toList) {n : Node} (hn : n ∈ b.nodes)
    (hsource : n.id = c.source.node) {d : Definition}
    (hd : catalog.find? n.definitionId = some d) (houtputs : (d.outputs.map Param.id).Nodup)
    {p : Param} (hp : p ∈ d.dataOutputs) (hparam : p.id = c.source.param) :
    b.CarriesValue catalog c := by
  intro m hm d' hd' q hq hkey
  -- the text tells the node, so both outputs are of one definition
  have hnode : m.id = c.source.node := by
    refine Endpoint.node_eq_of_key hkey (hcolon m hm) ?_
    rw [← hsource]
    exact hcolon n hn
  obtain rfl : m = n := List.inj_on_of_nodup_map hids hm hn (hnode.trans hsource.symm)
  obtain rfl : d = d' := Option.some.inj (hd.symm.trans hd')
  have hsame : q.id = p.id := by
    rw [hparam]
    rw [Endpoint.key, Endpoint.key, hsource] at hkey
    exact (String.append_right_inj _).1 hkey
  obtain ⟨hq, hexec⟩ := List.mem_filter.1 hq
  obtain ⟨hp, hdata⟩ := List.mem_filter.1 hp
  obtain rfl : q = p := List.inj_on_of_nodup_map houtputs hq hp hsame
  rw [hexec] at hdata
  cases hdata

namespace Blueprint.Sheds

/-! ## Look-ups -/

theorem nodes (h : b.Sheds c b') : b'.nodes = b.nodes := by
  obtain ⟨before, after, -, rfl, -⟩ := h.split
  rfl

/-- The same nodes are found. -/
theorem node? (h : b.Sheds c b') (id : String) :
    (Index.build b').node? id = (Index.build b).node? id := by
  obtain ⟨before, after, -, rfl, -⟩ := h.split
  rw [Index.node?_build, Index.node?_build]
  rfl

theorem isPure (h : b.Sheds c b') (id : String) :
    (Index.build b').isPure catalog id = (Index.build b).isPure catalog id := by
  rw [Index.isPure, Index.isPure, h.node?]

theorem knows (h : b.Sheds c b') (c' : Connection) :
    (Index.build b').knows c' = (Index.build b).knows c' := by
  obtain ⟨before, after, -, rfl, -⟩ := h.split
  rw [Index.knows_build, Index.knows_build]

/-- What is filed under another text than the connection is the same. -/
theorem filter_eq (h : b.Sheds c b') {keep : Connection → Bool} (hc : keep c = false) :
    b'.connections.filter keep = b.connections.filter keep := by
  obtain ⟨before, after, hconnections, rfl, -⟩ := h.split
  rw [hconnections]
  simp [hc]

/-- **Inputs take their values from the same connections.** -/
theorem feeding? (h : b.Sheds c b') (e : Endpoint) :
    (Index.build b').feeding? e = (Index.build b).feeding? e := by
  rw [Index.feeding?, Index.feeding?, Index.incoming_build, Index.incoming_build]
  simp only [h.knows]
  by_cases hkey : c.target.key = e.key
  · obtain ⟨before, after, hconnections, rfl, first, hbefore, hknown, htarget⟩ := h.split
    have hfirst : first ∈ before.filter
        fun c => (Index.build b).knows c && c.target.key == e.key := by
      rw [List.mem_filter, hknown, htarget, hkey]
      exact ⟨hbefore, by simp⟩
    have hreached := List.ne_nil_of_mem hfirst
    rw [hconnections, List.filter_append, List.filter_append,
      List.head?_append_of_ne_nil _ hreached, List.head?_append_of_ne_nil _ hreached]
  · rw [h.filter_eq]
    rw [beq_false_of_ne hkey, Bool.and_false]

/-- **Control leaves every node in the same ways**, if the connection carries a
    value. -/
theorem sameWays (h : b.Sheds c b') (hvalue : b.CarriesValue catalog c) (options : Options)
    {n : Node} (hn : n ∈ b.nodes) {d : Definition} (hd : catalog.find? n.definitionId = some d) :
    (Context.of b catalog options).SameWays (.of b' catalog options) n d := by
  constructor
  · show (Index.build b').execLeaving n d = (Index.build b).execLeaving n d
    rw [Index.execLeaving, Index.execLeaving, Index.leaving_build, Index.leaving_build,
      List.filter_filter, List.filter_filter]
    simp only [h.knows]
    refine h.filter_eq ?_
    by_contra hleaves
    simp only [Bool.not_eq_false, Bool.and_eq_true, beq_iff_eq] at hleaves
    obtain ⟨hexec, -, hnode⟩ := hleaves
    obtain ⟨p, hp, hid⟩ := Definition.exists_of_isExecOutput hexec
    apply hvalue n hn d hd p hp
    rw [← hnode, hid]
  · intro p hp
    show (Index.build b').outgoing ⟨n.id, p.id⟩ = (Index.build b).outgoing ⟨n.id, p.id⟩
    rw [Index.outgoing_build, Index.outgoing_build]
    simp only [h.knows]
    refine h.filter_eq ?_
    rw [beq_false_of_ne (hvalue n hn d hd p hp).symm, Bool.and_false]

theorem dangling (h : b.Sheds c b') : (Index.build b').dangling = (Index.build b).dangling := by
  rw [Index.dangling_build, Index.dangling_build]
  simp only [h.knows]
  refine h.filter_eq ?_
  rw [h.known]
  rfl

/-! ## Readers -/

/-- Of the connections that leave a node, only the surplus one is gone. -/
theorem mem_leaving_iff (h : b.Sheds c b') {c' : Connection} {id : String} :
    c' ∈ (Index.build b).leaving id
      ↔ c' ∈ (Index.build b').leaving id ∨ c' = c ∧ c.source.node = id := by
  have hmem : c' ∈ b.connections ↔ c' ∈ b'.connections ∨ c' = c := by
    obtain ⟨before, after, hconnections, rfl, -⟩ := h.split
    rw [hconnections]
    simp only [List.mem_append, List.mem_cons]
    tauto
  rw [Index.leaving_build, Index.leaving_build, List.mem_filter, List.mem_filter, hmem]
  simp only [h.knows, Bool.and_eq_true, beq_iff_eq]
  constructor
  · rintro ⟨hother | rfl, hends, hnode⟩
    · exact Or.inl ⟨hother, hends, hnode⟩
    · exact Or.inr ⟨rfl, hnode⟩
  · rintro (⟨hother, hends, hnode⟩ | ⟨rfl, hnode⟩)
    · exact ⟨Or.inl hother, hends, hnode⟩
    · exact ⟨Or.inr rfl, h.known, hnode⟩

/-- Fewer connections make fewer readers. -/
theorem readsVariable_of_less (h : b.Sheds c b') {id : String}
    (hid : ReadsVariable b' catalog id) : ReadsVariable b catalog id := by
  induction hid with
  | itself hn hkind => exact .itself (h.nodes ▸ hn) hkind
  | through _ hleaving hpure ih =>
      rw [h.isPure] at hpure
      exact .through ih (h.mem_leaving_iff.2 (Or.inl hleaving)) hpure

/-- **The readers are the same without the connection** exactly if it makes no
    node one. -/
theorem isReader_eq_iff (h : b.Sheds c b') (options : Options) :
    (∀ id, (Context.of b' catalog options).isReader id
        = (Context.of b catalog options).isReader id)
      ↔ b'.KeepsReaders catalog c := by
  have hreader : ∀ id, (Context.of b' catalog options).isReader id
      = (Context.of b catalog options).isReader id
        ↔ (ReadsVariable b' catalog id ↔ ReadsVariable b catalog id) := by
    intro id
    rw [Bool.eq_iff_iff, isReader_iff, isReader_iff]
  simp only [hreader]
  constructor
  · intro hsame hsource hpure
    rw [h.isPure] at hpure
    rw [hsame] at hsource ⊢
    exact .through hsource (h.mem_leaving_iff.2 (Or.inr ⟨rfl, rfl⟩)) hpure
  · intro hkeeps id
    refine ⟨h.readsVariable_of_less, ?_⟩
    intro hid
    induction hid with
    | itself hn hkind => exact .itself (h.nodes ▸ hn) hkind
    | through _ hleaving hpure ih =>
        rw [← h.isPure] at hpure
        rcases h.mem_leaving_iff.1 hleaving with hother | ⟨rfl, rfl⟩
        · exact .through ih hother hpure
        · exact hkeeps ih hpure

/-! ## Programs -/

/-- **Without a surplus connection a compilation looks up the same**, if no reader
    is lost by it. -/
theorem alike (h : b.Sheds c b') (hkeeps : b'.KeepsReaders catalog c)
    (hvalue : b.CarriesValue catalog c) (options : Options) :
    (Context.of b catalog options).Alike (.agreeing .shapeAmbiguity) (.of b' catalog options) := by
  obtain ⟨before, after, -, hless, -⟩ := h.split
  exact {
    catalog := fun _ _ => rfl
    options := rfl
    nodes := h.nodes
    kind := by rw [hless]; rfl
    names := by rw [hless]; rfl
    node? := h.node?
    found := fun _ _ hn => Index.mem_of_node?_build hn
    feeding? := h.feeding?
    isReader := (h.isReader_eq_iff options).2 hkeeps
    ways := fun _ hn _ hd => h.sameWays hvalue options hn hd
    report := fun d hds => Reporting.agreeing_report hds d
    fanIn := fun n param he => Reporting.alike_reportFanIn he _ _ n param }

/-- So the programs are alike but for reports of one kind. -/
theorem compile_alike (h : b.Sheds c b') (hkeeps : b'.KeepsReaders catalog c)
    (hvalue : b.CarriesValue catalog c) (options : Options) (time : String) :
    (compile b catalog options time).Alike (.agreeing .shapeAmbiguity)
      (compile b' catalog options time) := by
  have halike := h.alike hkeeps hvalue options
  have hstart : (danglingReports (.of b catalog options)).Alike (.agreeing .shapeAmbiguity)
      (danglingReports (.of b' catalog options)) := by
    have hsame : danglingReports (.of b' catalog options)
        = danglingReports (.of b catalog options) := by
      rw [danglingReports, danglingReports]
      show (Index.build b').dangling.foldl _ _ = (Index.build b).dangling.foldl _ _
      rw [h.dangling]
    rw [hsame]
    exact ⟨rfl, rfl, rfl⟩
  obtain ⟨before, after, -, rfl, -⟩ := h.split
  exact Blueprints.compile_alike time halike hstart

end Blueprint.Sheds

/-- **Only the first connection to an input counts**, up to the variable
    readers.  Without a later one these are the same exactly if it makes no
    node one.  Then, if it carries a value, the blueprint compiles to the same
    program, and the reports differ about what is ambiguous only.  It carries
    a value if its source is declared as an output for one, where ids are
    distinct and those of nodes have no colon. -/
theorem surplus_connection_ignored (h : b.Sheds c b') (catalog : Catalog) (options : Options)
    (time : String) :
    ((∀ id, (Context.of b' catalog options).isReader id
          = (Context.of b catalog options).isReader id)
        ↔ b'.KeepsReaders catalog c)
      ∧ (b'.KeepsReaders catalog c → b.CarriesValue catalog c →
        (compile b' catalog options time).source = (compile b catalog options time).source
          ∧ (compile b' catalog options time).analysis = (compile b catalog options time).analysis
          ∧ (compile b' catalog options time).diagnostics.others .shapeAmbiguity
            = (compile b catalog options time).diagnostics.others .shapeAmbiguity)
      ∧ ((b.nodes.map Node.id).Nodup → (∀ n ∈ b.nodes, ':' ∉ n.id.toList) →
        ∀ n ∈ b.nodes, n.id = c.source.node → ∀ d, catalog.find? n.definitionId = some d →
          (d.outputs.map Param.id).Nodup → (∃ p ∈ d.dataOutputs, p.id = c.source.param) →
            b.CarriesValue catalog c) := by
  refine ⟨h.isReader_eq_iff options, ?_, ?_⟩
  · intro hkeeps hvalue
    have hprogram := h.compile_alike hkeeps hvalue options time
    exact ⟨hprogram.source, hprogram.analysis, hprogram.diagnostics⟩
  · rintro hids hcolon n hn hsource d hd houtputs ⟨p, hp, hparam⟩
    exact carriesValue_of_mem_dataOutputs hids hcolon hn hsource hd houtputs hp hparam

/-! The value of `dice` is printed twice.  A variable is connected to the second
    print behind it, or to its own input behind a constant. -/

namespace LoadedDice

def wires : List Connection :=
  [⟨"c1", ⟨"begin", "exec"⟩, ⟨"first", "exec"⟩⟩,
    ⟨"c2", ⟨"first", "exec"⟩, ⟨"second", "exec"⟩⟩,
    ⟨"c3", ⟨"dice", "result"⟩, ⟨"first", "value"⟩⟩,
    ⟨"c4", ⟨"dice", "result"⟩, ⟨"second", "value"⟩⟩,
    ⟨"c5", ⟨"low", "value"⟩, ⟨"dice", "min"⟩⟩]

def wired (more : List Connection) : Blueprint where
  kind := .function
  nodes := [⟨"begin", "function_start", "", {}, [], []⟩, ⟨"first", "print", "", {}, [], []⟩,
    ⟨"second", "print", "", {}, [], []⟩, ⟨"dice", "random_number", "", {}, [], []⟩,
    ⟨"low", "number_constant", "", {}, [], []⟩, ⟨"x", "get_variable", "", {}, [], []⟩]
  connections := wires ++ more

def toPrint : Connection := ⟨"c6", ⟨"x", "value"⟩, ⟨"second", "value"⟩⟩

def toDice : Connection := ⟨"c6", ⟨"x", "value"⟩, ⟨"dice", "min"⟩⟩

/-- The connection is surplus behind the first one at its input. -/
theorem sheds (first c : Connection) (hfirst : first ∈ wires) (htarget : first.target = c.target)
    (hknown : ∀ c' ∈ [first, c], (Index.build (wired [c])).knows c' = true) :
    (wired [c]).Sheds c (wired []) where
  known := hknown c (List.mem_cons_of_mem _ (List.mem_singleton_self c))
  split := ⟨wires, [], rfl, rfl, first, hfirst, hknown first List.mem_cons_self, htarget⟩

theorem sheds_toPrint : (wired [toPrint]).Sheds toPrint (wired []) :=
  sheds ⟨"c4", ⟨"dice", "result"⟩, ⟨"second", "value"⟩⟩ _ (by decide) rfl (by decide)

theorem sheds_toDice : (wired [toDice]).Sheds toDice (wired []) :=
  sheds ⟨"c5", ⟨"low", "value"⟩, ⟨"dice", "min"⟩⟩ _ (by decide) rfl (by decide)

/-- With the connection to the dice they become a variable reader and the source
    another one, by evaluation. -/
theorem ids_apart_and_dice_becomes_reader :
    ((wired []).nodes.map Node.id).Nodup
      ∧ (∀ n ∈ (wired []).nodes, ':' ∉ n.id.toList)
      ∧ (Catalog.builtin.find? "get_variable").map (·.outputs.map fun p => (p.id, p.kind.isExec))
        = some [("value", false)]
      ∧ (Index.build (wired [])).isPure .builtin "second" = false
      ∧ (Context.of (wired []) .builtin {}).isReader "dice"
        ≠ (Context.of (wired [toDice]) .builtin {}).isReader "dice"
      ∧ (compile (wired []) .builtin {} "").source
        ≠ (compile (wired [toDice]) .builtin {} "").source := by
  decide +kernel

/-- The connection to the print changes nothing; that to `dice` makes it a
    reader. -/
theorem ignored_at_print_and_not_at_dice :
    (compile (wired []) .builtin {} "").source = (compile (wired [toPrint]) .builtin {} "").source
      ∧ ¬(wired []).KeepsReaders .builtin toDice
      ∧ (compile (wired []) .builtin {} "").source
        ≠ (compile (wired [toDice]) .builtin {} "").source := by
  obtain ⟨hids, hcolon, houtputs, hprint, hdice, hsource⟩ := ids_apart_and_dice_becomes_reader
  obtain ⟨-, hsame, hcarries⟩ := surplus_connection_ignored sheds_toPrint .builtin {} ""
  obtain ⟨hreaders, -⟩ := surplus_connection_ignored sheds_toDice .builtin {} ""
  refine ⟨?_, ?_, hsource⟩
  · obtain ⟨d, hd, hdeclared⟩ := Option.map_eq_some_iff.1 houtputs
    obtain ⟨p, hp, hparam⟩ := List.map_eq_singleton_iff.1 hdeclared
    obtain ⟨hid, hexec⟩ := Prod.mk.inj hparam
    have hdata : p ∈ d.dataOutputs := by
      rw [Definition.dataOutputs, hp, List.mem_filter, hexec]
      exact ⟨List.mem_singleton_self p, rfl⟩
    have hnodup : (d.outputs.map Param.id).Nodup := by
      rw [hp]
      exact List.nodup_singleton _
    have hvalue := hcarries hids hcolon ⟨"x", "get_variable", "", {}, [], []⟩ (by decide) rfl d hd
      hnodup ⟨p, hdata, hid⟩
    refine (hsame ?_ hvalue).1
    intro _ hpure
    exact absurd (hprint.symm.trans hpure) Bool.false_ne_true
  · intro hkeeps
    exact hdice (hreaders.2 hkeeps "dice")

end LoadedDice

end Blueprints
