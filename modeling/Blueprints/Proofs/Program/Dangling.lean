import Blueprints.Proofs.Program.Building
import Blueprints.Proofs.Program.Methods
import Blueprints.Proofs.Program.Routines
import Blueprints.Proofs.Wiring.Scans

/-! # Dangling connections

    A connection that names a missing node is set aside when the index is
    built, and nothing looks at it again but to report it.  So the index of a
    blueprint without these connections is the same, with nothing set aside
    (`Index.build_mended`), and a compilation does the same with it.

    The reports about them come first and are the only ones that are about no
    node (`aboutNodes_findings`).  No later report can therefore be one of
    them, and the reports of a blueprint are those about its dangling
    connections and then those of the blueprint without them
    (`dangling_reported_and_ignored`). -/

namespace Blueprints

/-! ## Lists without repeats -/

section Adding

variable {α : Type} [BEq α] [LawfulBEq α]

/-- Adding members one by one gives the new ones among them, in the order in
    which they are first met. -/
theorem foldl_addNew_eq (as bs : List α) :
    as.foldl addNew bs = bs ++ (as.filter fun a => !bs.contains a).eraseDups := by
  induction as generalizing bs with
  | nil => simp
  | cons a as ih =>
      rw [List.foldl_cons, ih, addNew]
      by_cases hmem : bs.contains a = true
      · rw [if_pos hmem, List.filter_cons_of_neg (by rw [hmem]; exact Bool.false_ne_true)]
      · rw [if_neg hmem, List.filter_cons_of_pos (by simpa using hmem), List.eraseDups_cons,
          List.filter_filter, List.append_assoc, List.singleton_append]
        congr 4
        funext x
        rw [List.contains_append, List.contains_cons]
        simp [Bool.and_comm]

/-- Members that are all new, each given once, are put at the end. -/
theorem foldl_addNew_of_new {as bs : List α} (hnodup : as.Nodup) (hnew : ∀ a ∈ as, a ∉ bs) :
    as.foldl addNew bs = bs ++ as := by
  induction as generalizing bs with
  | nil => simp
  | cons a as ih =>
      obtain ⟨ha, hnodup⟩ := List.nodup_cons.1 hnodup
      have hfirst : addNew bs a = bs ++ [a] := by
        rw [addNew, if_neg]
        simpa using hnew a (List.mem_cons_self ..)
      rw [List.foldl_cons, hfirst, ih hnodup, List.append_assoc, List.singleton_append]
      intro x hx hmem
      rcases List.mem_append.1 hmem with hold | hlast
      · exact hnew x (List.mem_cons_of_mem _ hx) hold
      · exact ha (List.mem_singleton.1 hlast ▸ hx)

end Adding

/-! ## Setting connections aside -/

/-- The connections that name a missing node. -/
def Blueprint.dangling (b : Blueprint) : List Connection := b.connections.filter (!b.hasEnds ·)

/-- A blueprint without the connections that name a missing node. -/
def Blueprint.mended (b : Blueprint) : Blueprint :=
  { b with connections := b.connections.filter b.hasEnds }

/-- The report about a connection that names a missing node. -/
def Connection.danglingReport (c : Connection) : Diagnostic :=
  ⟨.reference, none,
    s!"connection '{c.id}' references a missing node ({c.source.node} -> {c.target.node})"⟩

/-- The dangling connections are reported in their order, each report once. -/
theorem danglingReports_eq (ctx : Context) :
    danglingReports ctx
      = { diagnostics := (ctx.index.dangling.map Connection.danglingReport).eraseDups } := by
  have hreports : ∀ (cs : List Connection) (f : Findings),
      cs.foldl (fun f c => f.report c.danglingReport) f
        = { f with
            diagnostics := (cs.map Connection.danglingReport).foldl addNew f.diagnostics } := by
    intro cs
    induction cs with
    | nil => exact fun _ => rfl
    | cons c rest ih => exact fun f => ih (f.report c.danglingReport)
  refine (hreports ctx.index.dangling {}).trans ?_
  rw [foldl_addNew_eq]
  simp

namespace Index

/-- An index with nothing set aside. -/
def cleared (index : Index) : Index := { index with dangling := [] }

/-- A connection is filed, or it is set aside and can be left out. -/
theorem cleared_addConnection (index : Index) (c : Connection) :
    (index.addConnection c).cleared
      = if index.knows c then index.cleared.addConnection c else index.cleared := by
  have hfiled : index.cleared.addConnection c = if index.knows c then _ else _ := rfl
  have hfiled' : index.addConnection c = if index.knows c then _ else _ := rfl
  cases hknown : index.knows c with
  | true =>
      rw [hfiled, hfiled', if_pos rfl, if_pos hknown, if_pos hknown]
      rfl
  | false =>
      rw [hfiled', if_neg Bool.false_ne_true, if_neg (Bool.eq_false_iff.1 hknown)]
      rfl

/-- The tables are filled by the connections whose nodes are there. -/
theorem cleared_foldl_addConnection (conns : List Connection) (index : Index) :
    (conns.foldl addConnection index).cleared
      = (conns.filter index.knows).foldl addConnection index.cleared := by
  induction conns generalizing index with
  | nil => rfl
  | cons c rest ih =>
      have hknows : (index.addConnection c).knows = index.knows :=
        funext fun c' => knows_addConnection index c c'
      rw [List.foldl_cons, ih, hknows, cleared_addConnection]
      cases hknown : index.knows c with
      | true => rw [List.filter_cons_of_pos hknown, List.foldl_cons, if_pos rfl]
      | false =>
          rw [List.filter_cons_of_neg (Bool.eq_false_iff.1 hknown), if_neg Bool.false_ne_true]

/-- **The index without dangling connections** has the same tables. -/
theorem build_mended (b : Blueprint) : build b.mended = (build b).cleared := by
  have hnone : (b.nodes.foldl addNode {}).cleared = b.nodes.foldl addNode {} := by
    have hdangling : (b.nodes.foldl addNode {}).dangling = [] := dangling_foldl_addNode b.nodes {}
    generalize b.nodes.foldl addNode {} = index at hdangling
    obtain ⟨nodes, outgoing, leaving, incoming, dangling⟩ := index
    obtain rfl : dangling = [] := hdangling
    rfl
  have hknows : b.hasEnds = (b.nodes.foldl addNode {}).knows := by
    rw [← knows_build_eq]
    exact funext (knows_build b)
  show _ = (b.connections.foldl addConnection (b.nodes.foldl addNode {})).cleared
  rw [cleared_foldl_addConnection, hnone, ← hknows]
  rfl

end Index

/-- What reads a variable is told by the nodes and by what the index answers. -/
theorem ReadsVariable.of_lookups {b b' : Blueprint} {catalog : Catalog} {id : String}
    (hnodes : b'.nodes = b.nodes)
    (hleaving : ∀ id, (Index.build b').leaving id = (Index.build b).leaving id)
    (hpures : ∀ id, (Index.build b').isPure catalog id = (Index.build b).isPure catalog id)
    (h : ReadsVariable b catalog id) : ReadsVariable b' catalog id := by
  induction h with
  | itself hn hkind => exact .itself (hnodes ▸ hn) hkind
  | through _ hc hpure ih =>
      rw [← hleaving] at hc
      rw [← hpures] at hpure
      exact .through ih hc hpure

/-- A node is a variable reader with and without the dangling connections, or in
    neither case. -/
theorem isReader_mended (b : Blueprint) (catalog : Catalog) (options : Options) (id : String) :
    (Context.of b.mended catalog options).isReader id
      = (Context.of b catalog options).isReader id := by
  have hleaving : ∀ id, (Index.build b.mended).leaving id = (Index.build b).leaving id := by
    intro id
    rw [Index.build_mended]
    rfl
  have hpure : ∀ id, (Index.build b.mended).isPure catalog id
      = (Index.build b).isPure catalog id := by
    intro id
    rw [Index.build_mended]
    rfl
  rw [Bool.eq_iff_iff, isReader_iff, isReader_iff]
  constructor
  · exact .of_lookups rfl (fun id => (hleaving id).symm) fun id => (hpure id).symm
  · exact .of_lookups rfl hleaving hpure

/-! ## Reports that come first -/

/-- The first diagnostics are the second with some reports ahead of them, each
    report once. -/
def Reporting.behind (reports : Diagnostics) : Reporting :=
  fun ds ds' => ds = ds'.foldl addNew reports

/-- A report behind others stays behind them. -/
theorem Reporting.behind_report {reports ds ds' : Diagnostics} (d : Diagnostic)
    (h : behind reports ds ds') : behind reports (ds.report d) (ds'.report d) := by
  have hboth : (addNew ds' d).foldl addNew reports = addNew (ds'.foldl addNew reports) d :=
    foldl_addNew_addNew ds' reports d
  rw [← show ds = _ from h] at hboth
  exact hboth.symm

/-- **With and without the dangling connections a compilation looks up the same**;
    what it reports comes behind other reports in one case. -/
theorem Blueprint.alike_mended (b : Blueprint) (catalog : Catalog) (options : Options)
    (reports : Diagnostics) :
    (Context.of b catalog options).Alike (.behind reports) (.of b.mended catalog options) := by
  have hindex : (Context.of b.mended catalog options).index = (Index.build b).cleared :=
    Index.build_mended b
  exact {
    catalog := fun _ _ => rfl
    options := rfl
    nodes := rfl
    kind := rfl
    names := rfl
    node? := fun _ => by rw [hindex]; rfl
    found := fun _ _ hn => Index.mem_of_node?_build hn
    feeding? := fun _ => by rw [hindex]; rfl
    isReader := isReader_mended b catalog options
    ways := fun _ _ _ _ => ⟨by rw [hindex]; rfl, fun _ _ => by rw [hindex]; rfl⟩
    report := Reporting.behind_report
    fanIn := by
      intro e e' n param he
      have hlike : e.Like (Reporting.likeness (.behind reports) Reporting.behind_report) e' :=
        Emission.like_iff_alike.2 he
      exact Emission.like_iff_alike.1 (hlike.reportFanIn rfl (by rw [hindex]; rfl)) }

/-! ## Reports about nodes -/

/-- Each report is made once and is about a node. -/
structure Diagnostics.AboutNodes (ds : Diagnostics) : Prop where
  nodup : ds.Nodup
  nodes : ∀ d ∈ ds, d.node ≠ none

namespace Diagnostics.AboutNodes

/-- A report about a node may be added. -/
theorem report {ds : Diagnostics} (h : ds.AboutNodes) (kind : DiagnosticKind)
    (node message : String) : (ds.report ⟨kind, some node, message⟩).AboutNodes := by
  constructor
  · rw [Diagnostics.report]
    split
    · exact h.nodup
    · next hnew =>
      refine List.nodup_append.2 ⟨h.nodup, List.nodup_singleton _, ?_⟩
      rintro d hd d' hd' rfl
      rw [List.mem_singleton.1 hd'] at hd
      exact hnew (List.contains_iff_mem.2 hd)
  · intro d hd
    rcases Diagnostics.mem_report_iff.1 hd with hold | rfl
    · exact h.nodes d hold
    · exact Option.some_ne_none node

end Diagnostics.AboutNodes

section Acting

open Emission

variable {waits : Prop} {e e' : Emission}

/-- An act reports about nodes only. -/
theorem Emission.Act.aboutNodes (h : Act waits e e')
    (hbefore : e.findings.diagnostics.AboutNodes) : e'.findings.diagnostics.AboutNodes := by
  cases h with
  | report kind node message => exact hbefore.report kind node message
  | _ => exact hbefore

/-- So do acts one after the other. -/
theorem Emission.Moves.aboutNodes (h : Moves waits e e')
    (hbefore : e.findings.diagnostics.AboutNodes) : e'.findings.diagnostics.AboutNodes := by
  induction h with
  | refl => exact hbefore
  | act _ hact ih => exact hact.aboutNodes ih

end Acting

/-- So do the methods of a component. By induction on the hooks. -/
theorem aboutNodes_methods (ctx : Context) (hooks : List Hook) {f : Findings}
    (hf : f.diagnostics.AboutNodes) : (writeMethods ctx hooks f).2.diagnostics.AboutNodes := by
  induction hooks generalizing f with
  | nil => exact hf
  | cons hook rest ih =>
      rw [writeMethods]
      cases hookEntries ctx hook with
      | nil => exact ih hf
      | cons entry more =>
          have hroutine := (moves_writeRoutine ctx (entry :: more) f).aboutNodes hf
          refine ih ?_
          rw [reportReturn]
          cases (writeRoutine ctx (entry :: more) f).routine.returnNode with
          | none => exact hroutine
          | some id => exact hroutine.report .unsupportedKind id _

/-- **Where no connection dangles, all reports are about nodes.** -/
theorem aboutNodes_findings {ctx : Context} (h : ctx.index.dangling = []) :
    ctx.findings.diagnostics.AboutNodes := by
  have hstart : (danglingReports ctx).diagnostics.AboutNodes := by
    rw [danglingReports, h]
    exact ⟨List.nodup_nil, fun _ hd => absurd hd List.not_mem_nil⟩
  rw [Context.findings]
  cases ctx.blueprint.kind with
  | function => exact (moves_function ctx).aboutNodes hstart
  | component => exact aboutNodes_methods ctx Hook.all hstart

/-- The diagnostics of a program are those of its unit. -/
theorem diagnostics_compile (b : Blueprint) (catalog : Catalog) (options : Options)
    (time : String) :
    (compile b catalog options time).diagnostics
      = (Context.of b catalog options).findings.diagnostics := by
  have hblueprint : (Context.of b catalog options).blueprint = b := rfl
  rw [compile, Context.findings, hblueprint]
  cases b.kind with
  | function => rfl
  | component => rfl

/-- **Dangling connections do nothing but to be reported.**  Without them a
    blueprint compiles to the same text with the same analysis, if no time is
    told.  Its reports are those about its dangling connections, in their order
    and each once, and then the reports without them, which are all about
    nodes. -/
theorem dangling_reported_and_ignored (b : Blueprint) (catalog : Catalog) {options : Options}
    (htime : options.headerTimestamp = false) (time time' : String) :
    let p := compile b catalog options time
    let mended := compile b.mended catalog options time'
    p.source = mended.source ∧ p.analysis = mended.analysis
      ∧ p.diagnostics = (b.dangling.map Connection.danglingReport).eraseDups ++ mended.diagnostics
      ∧ ∀ d ∈ mended.diagnostics, d.node ≠ none := by
  intro p mended
  let reports := (b.dangling.map Connection.danglingReport).eraseDups
  have hdangling : (Index.build b).dangling = b.dangling := by
    rw [Index.dangling_build, Index.knows_build_eq]
    rfl
  have hnone : (Context.of b.mended catalog options).index.dangling = [] := by
    show (Index.build b.mended).dangling = []
    rw [Index.build_mended]
    rfl
  have hstart : (danglingReports (.of b catalog options)).Alike (.behind reports)
      (danglingReports (.of b.mended catalog options)) := by
    rw [danglingReports_eq, danglingReports_eq, hnone]
    show Findings.Alike _ { diagnostics := ((Index.build b).dangling.map _).eraseDups } _
    rw [hdangling]
    exact ⟨rfl, rfl, rfl⟩
  have halike : p.Alike (.behind reports) (compile b.mended catalog options time) :=
    compile_alike time (b.alike_mended catalog options reports) hstart
  rw [compile_of_untimed htime b.mended catalog time time'] at halike
  have habout : mended.diagnostics.AboutNodes := by
    rw [diagnostics_compile]
    exact aboutNodes_findings hnone
  refine ⟨halike.source.symm, halike.analysis.symm, ?_, habout.nodes⟩
  -- a report about a connection is about no node, so it is not made again
  have hreports : ∀ d ∈ mended.diagnostics, d ∉ reports := by
    intro d hd hmem
    obtain ⟨c, -, rfl⟩ := List.mem_map.1 (List.mem_eraseDups.1 hmem)
    exact habout.nodes _ hd rfl
  exact (show p.diagnostics = _ from halike.diagnostics).trans
    (foldl_addNew_of_new habout.nodup hreports)

/-! ### A torn blueprint -/

namespace Torn

/-- A connection to a print, from a node that was deleted. -/
def lost (id : String) : Connection := ⟨id, ⟨"gone", "value"⟩, ⟨"say", "value"⟩⟩

/-- Two numbers are connected to one input of a print, and between these
    connections stand some from a deleted node to the same input, one of them
    twice. -/
def torn : Blueprint where
  name := "Torn"
  kind := .function
  nodes := [⟨"begin", "function_start", "", {}, [], []⟩, ⟨"say", "print", "", {}, [], []⟩,
    ⟨"one", "number_constant", "", {}, [], []⟩, ⟨"two", "number_constant", "", {}, [], []⟩]
  connections := [lost "c1", ⟨"c2", ⟨"begin", "exec"⟩, ⟨"say", "exec"⟩⟩,
    ⟨"c3", ⟨"one", "value"⟩, ⟨"say", "value"⟩⟩, lost "c4", lost "c1",
    ⟨"c5", ⟨"two", "value"⟩, ⟨"say", "value"⟩⟩]

/-- The two lost connections are reported once each, and the mended blueprint has
    one report, by evaluation. -/
theorem lost_reported_once_each :
    (torn.dangling.map Connection.danglingReport).eraseDups
        = [(lost "c1").danglingReport, (lost "c4").danglingReport]
      ∧ (compile torn.mended .builtin {} "").diagnostics.map Diagnostic.node = [some "say"] := by
  decide +kernel

/-- Three connections are lost and two reports tell of them; the report about
    the input that two numbers reach comes after these. -/
theorem two_reports_ahead :
    torn.dangling.length = 3
      ∧ (compile torn .builtin {} "").source = (compile torn.mended .builtin {} "").source
      ∧ ∃ fanIn : Diagnostic, fanIn.node = some "say"
        ∧ (compile torn .builtin {} "").diagnostics
          = [(lost "c1").danglingReport, (lost "c4").danglingReport, fanIn] := by
  obtain ⟨hreports, hnodes⟩ := lost_reported_once_each
  have htime : ({} : Options).headerTimestamp = false := rfl
  obtain ⟨hsource, -, hdiagnostics, -⟩ :=
    dangling_reported_and_ignored torn .builtin htime "" ""
  obtain ⟨fanIn, hfanIn, hnode⟩ := List.map_eq_singleton_iff.1 hnodes
  refine ⟨by decide, hsource, fanIn, hnode, ?_⟩
  rw [hdiagnostics, hreports, hfanIn]
  rfl

end Torn

end Blueprints
