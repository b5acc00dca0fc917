import Blueprints.Proofs.Emit.Running
import Blueprints.Proofs.Wiring.Readers

/-! # Which variables a read takes anew

    To read a value that depends on variables takes them anew: the nodes that
    read them, those between and the producer of the value are assigned once
    more, in the block that is written into, right before the statement that
    uses the value.

    A node between is left out exactly if it is kept: if it is on the path and
    does not count as a variable reader.  Where no id of a node has a colon in
    it, every node that depends on a variable counts as a reader, so none is
    kept (`isReader_of_reaches`). -/

namespace Blueprints

open Arena Relation

/-! ## Reads of a routine -/

/-- The reads of the routines of a unit: which input of a node is read, into
    which block and from which emission, and the blocks of the finished
    routine.  The nodes that control reaches read, and the return at the end
    of a function. -/
inductive Context.ReadsInto (ctx : Context) :
    Node → String → Nat → Emission → Arena Statement → Prop where
  | visit {entries : List Node} {findings : Findings}
      (t : Turn ctx (entrySteps entries { findings }).1 (entrySteps entries { findings }).2)
      {params more : List String} {param : String} (h : t.inputs = params ++ param :: more) :
      ReadsInto ctx t.node param t.step.block (t.reading params)
        (writeRoutine ctx entries findings).blocks
  | giveBack {n : Node} (hn : returnNode? ctx (writeFunctionBody ctx).routine = some n)
      (hvalue : (ctx.source n "value").type? ≠ none) :
      ReadsInto ctx n "value" Arena.root (beforeReturn ctx n (writeFunctionBody ctx))
        (FunctionUnit.build ctx).routine.blocks

section Reading

variable {ctx : Context} {n : Node} {param : String} {b : Nat} {e : Emission}
  {final : Arena Statement}

/-- No variable reader is current when a read starts. -/
theorem Context.ReadsInto.fresh (complete : ctx.Complete) (h : ctx.ReadsInto n param b e final) :
    e.fresh = [] := by
  cases h with
  | visit t hsplit =>
      have hsteady := t.running.steady complete (steady_entrySteps ..)
      exact (t.prepared hsteady complete _).fresh
  | giveBack hn hvalue =>
      exact ((steady_writeFunctionBody complete).prepared_return _).fresh

/-- Between what a read writes and the statement that uses the value there are
    assignments only, and all of it stands in the finished routine. -/
theorem Context.ReadsInto.exists_use (complete : ctx.Complete)
    (h : ctx.ReadsInto n param b e final) {log : Log}
    (hreads : Reads ctx b n param e log (readInput ctx n param b e).2) :
    ∃ (more : List Statement) (use : Statement),
      (∀ s ∈ more, ∃ name value, s = .assign name value)
        ∧ (ctx.source n param).operand ∈ use.operands
        ∧ (e.blocks.lines b (log.statements ++ more ++ [use])).Keeps final := by
  cases h with
  | @visit entries findings t params more param hsplit =>
      have hstart := steady_entrySteps ctx entries findings
      have hsteady := t.running.steady complete hstart
      have hparam : param ∈ t.inputs := by
        rw [hsplit]
        exact List.mem_append_right _ (List.mem_cons_self ..)
      obtain ⟨ss, hassigns, hblocks⟩ := t.exists_lines hsteady complete (params ++ [param]) more
      obtain ⟨use, huse, hoperand⟩ := t.exists_statement? complete hparam
      refine ⟨ss, use, hassigns, hoperand, ?_⟩
      have hread : (t.reading (params ++ [param])).blocks
          = (t.reading params).blocks.lines t.step.block log.statements := by
        rw [← hreads.blocks, Turn.reading, readInputs_append]
        rfl
      have hstated : t.stated.blocks
          = (t.reading params).blocks.lines t.step.block (log.statements ++ ss ++ [use]) := by
        rw [Turn.stated, Emission.blocks_withBlocks, huse, lines_append, lines_append, ← hread,
          ← hblocks, List.append_assoc, List.singleton_append, ← hsplit]
        rfl
      rw [← hstated]
      exact t.stated_keeps_walk complete hstart
  | @giveBack n hn hvalue =>
      refine ⟨[], .giveBack (ctx.source n "value").operand,
        fun s hs => absurd hs List.not_mem_nil, List.mem_singleton_self _, ?_⟩
      have hfinal : (FunctionUnit.build ctx).routine.blocks
          = (writeReturn ctx (writeFunctionBody ctx)).2.blocks := rfl
      rw [hfinal, writeReturn_of_value hn hvalue, Emission.blocks_emit, hreads.blocks,
        List.append_nil, lines_append, readInput, fst_readWith]
      exact .refl _

end Reading

/-! ## What is computed by a read -/

/-- The nodes by which one pure node depends on another. -/
def Context.Between (ctx : Context) (p g x : String) : Prop :=
  ReflTransGen ctx.DependsOn p x ∧ ReflTransGen ctx.DependsOn x g

/-- A node whose value is kept: it is on the path and does not count as a
    variable reader. -/
def Context.Kept (ctx : Context) (e : Emission) (x : String) : Prop :=
  x ∈ e.path.latest ∧ ctx.isReader x = false

/-- A log assigns the temporaries of its nodes, what they depend on first. -/
def Log.InOrder (ctx : Context) (log : Log) : Prop :=
  ∀ x ∈ log.ids, ∃ before t value after, log = before ++ (x, .assign t value) :: after
    ∧ ctx.temporary? x = some t ∧ ∀ y ∈ log.ids, ctx.DependsOn x y → y ∈ Log.ids before

section Computed

variable {ctx : Context} {n : Node} {param : String} {b : Nat} {e r : Emission} {log : Log}

/-- At the start of a read, a node is current exactly if its value is kept. -/
theorem isCurrent_iff_kept (hfresh : e.fresh = []) (x : String) :
    e.isCurrent ctx x = true ↔ ctx.Kept e x := by
  cases hreader : ctx.isReader x with
  | true =>
      rw [isCurrent_iff_of_reader hreader, hfresh, Context.Kept, hreader]
      simp
  | false =>
      rw [isCurrent_iff_of_not_reader hreader, Context.Kept, hreader]
      simp

/-- What a node of the log depends on is in the log, ahead of it, unless it was
    current. -/
theorem Reads.inOrder (acyclic : ctx.Acyclic) (h : Reads ctx b n param e log r) :
    log.InOrder ctx := by
  intro x hx
  obtain ⟨before, s, after, hlog, hentry⟩ := h.valid.entry hx
  obtain ⟨p, value, rfl, -⟩ := hentry.assigns
  refine ⟨before, p.temporary, value, after, hlog, p.temporary?_eq, fun y hy hdepends => ?_⟩
  rcases hentry.dependencies y hdepends with (hcur | hbefore) | hact | hback
  · exact absurd hcur (h.not_current hy)
  · exact hbefore
  · exact absurd hact List.not_mem_nil
  · exact absurd (TransGen.head' hdepends hback) (acyclic x)

/-- Where there is no circle, a computed node brings along what it depends on and is
    not current. -/
theorem Reads.mem_ids_of_dependsOn (acyclic : ctx.Acyclic) (h : Reads ctx b n param e log r)
    {x y : String} (hx : x ∈ log.ids) (hdepends : ctx.DependsOn x y)
    (hy : ¬e.isCurrent ctx y = true) : y ∈ log.ids := by
  obtain ⟨before, s, after, rfl, hentry⟩ := h.valid.entry hx
  rcases hentry.dependencies y hdepends with (hcur | hbefore) | hact | hback
  · exact absurd hcur hy
  · rw [Log.ids_append]
    exact List.mem_append_left _ hbefore
  · exact absurd hact List.not_mem_nil
  · exact absurd (TransGen.head' hdepends hback) (acyclic x)

/-- **What a read computes** of the nodes between its producer and another
    one: all of them, exactly if none is kept. -/
theorem Reads.computes_iff (acyclic : ctx.Acyclic) (hfresh : e.fresh = [])
    (h : Reads ctx b n param e log r) {t g : String} {output : Endpoint} {kind : ParamKind}
    (hsource : ctx.source n param = .temporary t output kind)
    (hpure : ctx.index.isPure ctx.catalog output.node = true) :
    (∀ x, ctx.Between output.node g x → x ∈ log.ids)
      ↔ ∀ x, ctx.Between output.node g x → ¬ctx.Kept e x := by
  constructor
  · intro hall x hx hkept
    exact h.not_current (hall x hx) ((isCurrent_iff_kept hfresh x).2 hkept)
  · intro hnone x hx
    obtain ⟨hfrom, hto⟩ := hx
    -- along the way from the producer
    induction hfrom with
    | refl =>
        rcases h.producer hsource hpure with hcur | hlog
        · exact absurd ((isCurrent_iff_kept hfresh _).1 hcur) (hnone _ ⟨.refl, hto⟩)
        · exact hlog
    | tail hfrom hstep ih =>
        refine h.mem_ids_of_dependsOn acyclic (ih (.head hstep hto)) hstep fun hcur => ?_
        exact hnone _ ⟨hfrom.tail hstep, hto⟩ ((isCurrent_iff_kept hfresh _).1 hcur)

end Computed

/-! ## Variables -/

/-- Where no id has a colon, nothing that depends on a variable is kept. -/
theorem not_kept_of_between {b : Blueprint} {catalog : Catalog} {options : Options}
    (hids : ∀ m ∈ b.nodes, ':' ∉ m.id.toList) {p g x : String} {getter : Node} {e : Emission}
    (hpure : (Context.of b catalog options).index.isPure (Context.of b catalog options).catalog p
      = true)
    (hx : (Context.of b catalog options).Between p g x)
    (hnode : (Context.of b catalog options).index.node? g = some getter)
    (hkind : (Context.of b catalog options).catalog.kind? getter = some (.pure .getVariable)) :
    ¬(Context.of b catalog options).Kept e x := by
  rintro ⟨-, hnot⟩
  obtain ⟨hfrom, hto⟩ := hx
  have hpurex : (Index.build b).isPure catalog x = true := by
    cases hfrom with
    | refl => exact hpure
    | tail _ hstep =>
        obtain ⟨m, -, hmem⟩ := hstep
        obtain ⟨d, -, hpure', -⟩ := mem_pureDependencies.1 hmem
        exact hpure'
  rw [isReader_of_reaches hids hto hpurex hnode hkind] at hnot
  exact nomatch hnot

/-- **A read takes variables anew.**  Over the palette, where pure nodes
    depend on each other in no circle, every read of a value that depends on a
    variable starts with no reader current and writes assignments behind all
    lines of its block, what is depended on first.  Up to the statement that
    uses the value, only assignments to temporaries follow.

    The nodes between the value and the variable are all among them exactly if
    none of them is kept; and none is, if no id of a node has a colon. -/
theorem read_recomputes_variables (b : Blueprint) (options : Options) (n : Node) (param : String)
    (block : Nat) (e : Emission) (final : Arena Statement) :
    let ctx := Context.of b .builtin options
    ctx.Acyclic → ctx.ReadsInto n param block e final →
    ∀ (t : String) (producer : Endpoint) (kind : ParamKind),
      ctx.source n param = .temporary t producer kind →
      ctx.index.isPure ctx.catalog producer.node = true →
      e.fresh = [] ∧ ∃ (log : Log) (more : List Statement) (use : Statement),
        (readInput ctx n param block e).2.blocks = e.blocks.lines block log.statements
        ∧ log.InOrder ctx
        ∧ (∀ s ∈ more, ∃ name value, s = .assign name value)
        ∧ .temporary t ∈ use.operands
        ∧ (e.blocks.lines block (log.statements ++ more ++ [use])).Keeps final
        ∧ ∀ (g : String) (getter : Node), ReflTransGen ctx.DependsOn producer.node g →
          ctx.index.node? g = some getter →
          ctx.catalog.kind? getter = some (.pure .getVariable) →
            ((∀ x, ctx.Between producer.node g x → x ∈ log.ids)
              ↔ ∀ x, ctx.Between producer.node g x → ¬ctx.Kept e x)
            ∧ ((∀ m ∈ b.nodes, ':' ∉ m.id.toList) →
              ∀ x, ctx.Between producer.node g x → x ∈ log.ids) := by
  intro ctx acyclic hread t producer kind hsource hpure
  have complete : ctx.Complete := complete_builtin b options
  have hfresh := hread.fresh complete
  obtain ⟨log, hreads⟩ := exists_log_readInput complete block n param hfresh
  obtain ⟨more, use, hassigns, huse, hkeeps⟩ := hread.exists_use complete hreads
  rw [hsource] at huse
  refine ⟨hfresh, log, more, use, hreads.blocks, hreads.inOrder acyclic, hassigns, huse, hkeeps, ?_⟩
  intro g getter _ hnode hkind
  have hiff := hreads.computes_iff acyclic hfresh (g := g) hsource hpure
  exact ⟨hiff, fun hids => hiff.2 fun x hx => not_kept_of_between hids hpure hx hnode hkind⟩

/-! ### A variable that is assigned and then printed as text -/

namespace PrintedVariable

def start : Node := ⟨"start", "function_start", "", {}, [], []⟩

def assignment : Node :=
  ⟨"set", "set_variable", "", {}, [("name", .string "x"), ("value", .int 2)], []⟩

def print : Node := ⟨"show", "print", "", {}, [], []⟩

def text : Node := ⟨"text", "to_string", "", {}, [], []⟩

def getter : Node := ⟨"get", "get_variable", "", {}, [("name", .string "x")], []⟩

def blueprint : Blueprint where
  kind := .function
  nodes := [start, assignment, print, text, getter]
  connections := [⟨"c1", ⟨"start", "exec"⟩, ⟨"set", "exec"⟩⟩,
    ⟨"c2", ⟨"set", "exec"⟩, ⟨"show", "exec"⟩⟩, ⟨"c3", ⟨"get", "value"⟩, ⟨"text", "value"⟩⟩,
    ⟨"c4", ⟨"text", "result"⟩, ⟨"show", "value"⟩⟩]

/-- The emission with which the function starts. -/
def entered : Emission := (entrySteps [start] { findings := {} }).2

/-- The step to the start node. -/
def first : Step := ⟨"start", .empty, 1⟩

/-- The step to the assignment. -/
def second : Step := ⟨"set", (first.visited (.of blueprint .builtin {}) start entered).2.path, 1⟩

/-- The emission from which the variable is assigned. -/
def started : Emission := (first.visited (.of blueprint .builtin {}) start entered).2

/-- The step to the print node. -/
def third : Step :=
  ⟨"show", (second.visited (.of blueprint .builtin {}) assignment started).2.path, 1⟩

/-- The emission with the assignment of the variable. -/
def assigned : Emission := (second.visited (.of blueprint .builtin {}) assignment started).2

/-- The way to the print node, and what it reads from, by evaluation. -/
theorem way_to_print :
    ((∀ n ∈ blueprint.nodes, ∀ y ∈ (Context.of blueprint .builtin {}).pureDependencies n,
        ["get", "text", "show"].idxOf y < ["get", "text", "show"].idxOf n.id)
      ∧ (Context.of blueprint .builtin {}).index.node? "start" = some start
      ∧ (first.visited (.of blueprint .builtin {}) start entered).1 = [⟨"set", 1⟩]
      ∧ second.path.contains "set" = false
      ∧ (Context.of blueprint .builtin {}).index.node? "set" = some assignment
      ∧ (second.visited (.of blueprint .builtin {}) assignment started).1 = [⟨"show", 1⟩])
    ∧ (third.path.contains "show" = false
      ∧ (Context.of blueprint .builtin {}).index.node? "show" = some print
      ∧ (Context.of blueprint .builtin {}).catalog.kind? print = some .print
      ∧ NodeKind.inputs (.of blueprint .builtin {}) print .print = ["value"])
    ∧ (Context.of blueprint .builtin {}).source print "value"
      = .temporary "tostring_3_result" ⟨"text", "result"⟩ .string
    ∧ (Context.of blueprint .builtin {}).index.isPure (Context.of blueprint .builtin {}).catalog
      "text" = true
    ∧ (Context.of blueprint .builtin {}).index.node? "text" = some text
    ∧ "get" ∈ (Context.of blueprint .builtin {}).pureDependencies text
    ∧ (Context.of blueprint .builtin {}).index.node? "get" = some getter
    ∧ (Context.of blueprint .builtin {}).catalog.kind? getter = some (.pure .getVariable)
    ∧ ∀ n ∈ blueprint.nodes, ':' ∉ n.id.toList := by
  decide +kernel

/-- Behind the assignment of the variable, the variable and its text are
    computed to be printed. -/
theorem recomputed_for_print :
    ∃ (e : Emission) (final : Arena Statement) (log : Log),
      (Context.of blueprint .builtin {}).ReadsInto print "value" 1 e final
      ∧ (readInput (.of blueprint .builtin {}) print "value" 1 e).2.blocks
        = e.blocks.lines 1 log.statements
      ∧ "get" ∈ log.ids ∧ "text" ∈ log.ids := by
  obtain ⟨⟨hrank, hstart, hset, hnew, hassignment, hshow⟩,
    ⟨hnew', hprint, hkind, hinputs⟩,
    hsource, hpure, htext, hdepends, hgetter, hvariable, hids⟩ := way_to_print
  have acyclic : (Context.of blueprint .builtin {}).Acyclic :=
    Context.acyclic_of_rank _ hrank fun hn =>
      ⟨Index.mem_of_node?_build hn, Index.id_of_node?_build hn⟩
  have hfirst : Walking (.of blueprint .builtin {}) [first] entered [second] started :=
    Walking.start.next rfl hstart hset
  have hsecond : Walking (.of blueprint .builtin {}) [first] entered [third] assigned :=
    hfirst.next hnew hassignment hshow
  obtain ⟨d, hd, hofKind⟩ := exists_definition_of_kind? hkind
  let t : Turn (.of blueprint .builtin {}) (entrySteps [start] { findings := {} }).1
      (entrySteps [start] { findings := {} }).2 :=
    ⟨third, [], assigned, print, d, .print, hsecond, hnew', hprint, hd, hofKind⟩
  have hread := Context.ReadsInto.visit t (show t.inputs = [] ++ "value" :: [] from hinputs)
  have hstep : (Context.of blueprint .builtin {}).DependsOn "text" "get" := ⟨text, htext, hdepends⟩
  obtain ⟨-, log, -, -, hblocks, -, -, -, -, hvariables⟩ :=
    read_recomputes_variables blueprint {} print "value" 1 (t.reading []) _ acyclic hread
      "tostring_3_result" ⟨"text", "result"⟩ .string hsource hpure
  have hall := (hvariables "get" getter (.single hstep) hgetter hvariable).2 hids
  exact ⟨t.reading [], _, log, hread, hblocks, hall "get" ⟨.single hstep, .refl⟩,
    hall "text" ⟨.refl, .single hstep⟩⟩

end PrintedVariable

end Blueprints
