import Blueprints.Proofs.Emit.Grounding

/-! # What is computed in the body of a loop

    A loop reserves a block for its body behind its head and goes on into it
    by its first output.  The steps into the body make a run of their own
    (`Turn.bodySteps`), which is a part of the run of the routine
    (`Turn.ofBody`).

    On that run everything under the body has been written for the body: the
    body starts without an assignment, and the path that the loop leaves is
    the base.  So a value that is read in the body is computed in the body
    unless its producer is on that path and no variable reader. -/

namespace Blueprints

open Arena

/-! ## Into the body -/

/-- Every connection has an exit. -/
theorem length_spread (b : Nat) (conns : List Connection) (e : Emission) :
    (spread b conns e).1.length = conns.length := by
  induction conns generalizing e with
  | nil => rfl
  | cons conn rest ih => exact congrArg (· + 1) (ih _)

theorem length_goOn (b : Nat) (conns : List Connection) (e : Emission) :
    (goOn b conns e).1.length = conns.length := by
  rw [goOn.eq_def]
  split
  · rfl
  · exact length_spread b _ e

/-- Whether a loop goes on into its body by its first output. -/
def Definition.entersBody (d : Definition) : Bool :=
  NodeKind.ofDefinition? d.id != some .forLoop
    || d.execOutputs[0]?.map Param.id == some "loop_body"

theorem entersBody_builtin : Catalog.builtin.definitions.all Definition.entersBody = true := by
  decide

namespace Turn

variable {ctx : Context} {s₀ : List Step} {e₀ : Emission}

/-- The block of the body of a loop, which is reserved behind its head. -/
def bodyBlock (t : Turn ctx s₀ e₀) : Nat := t.stated.blocks.size

/-- The steps by which a loop goes on into its body. -/
def bodySteps (t : Turn ctx s₀ e₀) : List Step :=
  t.visited.steps.take (ctx.index.outgoing ⟨t.node.id, "loop_body"⟩).length

/-- The emission with the head of a loop. -/
def headed (t : Turn ctx s₀ e₀) : Emission :=
  ((t.reading t.inputs).declare (loopIndex ctx t.node) "number").emit t.step.block
    (.openFor (loopIndex ctx t.node) (t.operand "count"))

/-- The emission with a loop that has nothing in its body. -/
def opened (t : Turn ctx s₀ e₀) : Emission :=
  (t.headed.reserve .nested t.step.block).2.emit t.step.block .close

/-- The exits of a loop into its body. -/
def entered (t : Turn ctx s₀ e₀) : Visited :=
  goOnBy ctx t.node t.definition.execOutputs[0]? t.bodyBlock t.opened

/-- The exits of a loop when it has run. -/
def left (t : Turn ctx s₀ e₀) : Visited :=
  goOnBy ctx t.node t.definition.execOutputs[1]? t.step.block t.entered.2

variable (t : Turn ctx s₀ e₀)

section Loop

variable (hkind : t.kind = .forLoop)

include hkind

theorem statement?_of_forLoop :
    t.statement? = some (.openFor (loopIndex ctx t.node) (t.operand "count")) := by
  rw [statement?, hkind]
  rfl

theorem blocks_headed : t.headed.blocks = t.stated.blocks := by
  rw [stated, Emission.blocks_withBlocks, t.statement?_of_forLoop hkind, headed,
    Emission.blocks_emit, Emission.blocks_declare]
  rfl

/-- A loop enters its body and then goes on behind it. -/
theorem visited_of_forLoop : t.visited = (t.entered.1 ++ t.left.1, t.left.2) := by
  rw [t.visited_eq_visitKind, left, entered, bodyBlock, ← t.blocks_headed hkind, opened, headed,
    operand, reading, inputs, hkind]
  rfl

/-- The body is ready for the path to it. -/
theorem ready_body (ids : List String) :
    Ready ctx t.bodyBlock ids t.opened.blocks ids t.bodyBlock := by
  refine ⟨?_, .refl, fun hx _ _ => Or.inl hx⟩
  rw [opened, Emission.blocks_emit, size_line, bodyBlock, ← t.blocks_headed hkind]
  exact Nat.lt_of_lt_of_eq (Nat.lt_succ_self _) (size_reserve ..).symm

/-- What follows a loop removes nothing from its body. -/
theorem keeps_entered {root : Nat} {base ids : List String}
    (h : Ready ctx root base t.stated.blocks ids t.step.block) :
    t.entered.2.blocks.Keeps t.visited.2.blocks := by
  have hentered := goesOn_goOnBy (n := t.node) t.definition.execOutputs[0]?
    (t.ready_body hkind ids)
  rw [← t.blocks_headed hkind] at h
  have hleft := goesOn_goOnBy (n := t.node) t.definition.execOutputs[1]?
    (((h.reserve .nested t.step.block).emit t.step.block .close).keeps hentered.quiet.keeps)
  rw [t.visited_of_forLoop hkind]
  exact hleft.quiet.keeps

/-- The steps into the body are the exits of the first output. -/
theorem bodySteps_eq (hfirst : t.definition.execOutputs[0]?.map Param.id = some "loop_body") :
    t.bodySteps = t.entered.1.map fun x => ⟨x.node, t.visited.2.path, x.block⟩ := by
  -- one exit for each connection
  have hlength : (ctx.index.outgoing ⟨t.node.id, "loop_body"⟩).length = t.entered.1.length := by
    obtain ⟨p, hp, hid⟩ := Option.map_eq_some_iff.1 hfirst
    rw [entered, hp, ← hid]
    exact (length_goOn ..).symm
  rw [bodySteps, Visited.steps, hlength, ← List.map_take, t.visited_of_forLoop hkind]
  exact congrArg _ List.take_left

end Loop

section Body

variable {root : Nat} {base : List String} (hkind : t.kind = .forLoop)
  (hfirst : t.definition.execOutputs[0]?.map Param.id = some "loop_body")
  (complete : ctx.Complete) (h : Steady ctx root base (t.step :: t.rest) t.before)

include hkind complete h

/-- The body stands behind the head of its loop, which holds the bound. -/
theorem exists_bound :
    ∃ k, (t.visited.2.blocks.body t.step.block)[k]?
        = some (.line (.openFor (loopIndex ctx t.node) (t.operand "count")))
      ∧ (t.visited.2.blocks.body t.step.block)[k + 1]? = some (.block .nested t.bodyBlock) := by
  have hready := t.ready_stated h complete
  have hlt := (t.prepared h complete t.inputs).ready.within
  have hstated : t.stated.blocks = (t.reading t.inputs).blocks.line t.step.block
      (.openFor (loopIndex ctx t.node) (t.operand "count")) := by
    rw [stated, Emission.blocks_withBlocks, t.statement?_of_forLoop hkind]
    rfl
  have hentered := goesOn_goOnBy (n := t.node) t.definition.execOutputs[0]? (t.ready_body hkind [])
  have hopened : (t.stated.blocks.reserve .nested t.step.block).2.Keeps t.opened.blocks := by
    rw [← t.blocks_headed hkind]
    exact keeps_line ..
  have hkeeps := (hopened.trans hentered.quiet.keeps).trans (t.keeps_entered hkind hready)
  refine ⟨t.place, ?_, ?_⟩
  · refine hkeeps.body ((keeps_reserve ..).body ?_)
    rw [hstated]
    exact getElem?_body_line hlt _
  · refine hkeeps.body ?_
    rw [place, ← length_body_line hlt, ← hstated]
    exact getElem?_body_reserve hready.within .nested

include hfirst

/-- The run into the body is steady under the body, from the path that the
    loop leaves. -/
theorem steady_body :
    Steady ctx t.bodyBlock t.visited.2.path.latest t.bodySteps t.visited.2 := by
  have hready := t.ready_stated h complete
  have hbody := t.ready_body hkind t.visited.2.path.latest
  have hentered := goesOn_goOnBy (n := t.node) t.definition.execOutputs[0]? hbody
  have hkeeps := t.keeps_entered hkind hready
  refine ⟨(hbody.keeps (hentered.quiet.keeps.trans hkeeps)).within,
    (t.goesOn complete hready).fresh.trans (t.prepared h complete t.inputs).fresh,
    fun step hstep => ?_⟩
  rw [t.bodySteps_eq hkind hfirst] at hstep
  obtain ⟨x, hx, rfl⟩ := List.mem_map.1 hstep
  exact (hentered.exits x hx).keeps hkeeps

omit hkind hfirst in
/-- The steps into the body are apart, and nothing is assigned in the body. -/
theorem apart_body (hapart : Apart ctx root base (t.step :: t.rest) t.before) :
    Apart ctx t.bodyBlock t.visited.2.path.latest t.bodySteps t.visited.2 := by
  have hgo := t.goesOn complete (t.ready_stated h complete)
  have hafter := hapart.after h (t.extends_stated h complete)
    (t.grounded_stated h hapart complete) hgo
  have hsub : t.bodySteps.Sublist (t.visited.steps ++ t.rest) :=
    (List.take_sublist ..).trans (List.sublist_append_left ..)
  refine ⟨hafter.closed, hafter.distinct.sublist (hsub.map _), fun step hstep => ?_⟩
  obtain ⟨x, -, rfl⟩ := List.mem_map.1 (List.mem_of_mem_take hstep)
  refine ⟨fun y hy => hy, fun hassigned => ?_⟩
  -- an assignment under the body would stand in a block that is not new
  obtain ⟨c, j, value, hline, hunder, -⟩ := hassigned
  rcases hgo.quiet.lines hline with hold | hbare
  · exact absurd (lt_size_of_getElem? hold) (Nat.not_lt.2 hunder.le)
  · exact nomatch hbare

end Body

/-- The steps by which a loop goes on when it has run. -/
def stepsAfter (t : Turn ctx s₀ e₀) : List Step :=
  t.visited.steps.drop (ctx.index.outgoing ⟨t.node.id, "loop_body"⟩).length

theorem bodySteps_append : t.bodySteps ++ t.stepsAfter = t.visited.steps :=
  List.take_append_drop ..

/-- A turn in the body of a loop, as one of the routine. -/
def ofBody (t : Turn ctx s₀ e₀) (u : Turn ctx t.bodySteps t.visited.2) : Turn ctx s₀ e₀ where
  step := u.step
  rest := u.rest ++ (t.stepsAfter ++ t.rest)
  before := u.before
  node := u.node
  definition := u.definition
  kind := u.kind
  running := by
    have hbody := u.running.append (t.stepsAfter ++ t.rest)
    have hsteps : t.bodySteps ++ (t.stepsAfter ++ t.rest) = t.visited.steps ++ t.rest := by
      rw [← List.append_assoc, t.bodySteps_append]
    rw [hsteps] at hbody
    exact (t.running.visit t.new t.found).trans hbody
  new := u.new
  found := u.found
  known := u.known
  ofKind := u.ofKind

/-- The statement of a turn stands at its place in the finished routine, with
    the values that were read for it. -/
theorem exists_use (complete : ctx.Complete) {root : Nat} {base : List String}
    (h₀ : Steady ctx root base s₀ e₀) {param : String} (hparam : param ∈ t.inputs) :
    ∃ s, t.statement? = some s
      ∧ ((walk ctx s₀ e₀).blocks.body t.step.block)[t.place]? = some (.line s)
      ∧ (ctx.source t.node param).operand ∈ s.operands := by
  have hsteady := t.running.steady complete h₀
  obtain ⟨s, hs, hoperand⟩ := t.exists_statement? complete hparam
  refine ⟨s, hs, (t.stated_keeps_walk complete h₀).body ?_, hoperand⟩
  rw [stated, Emission.blocks_withBlocks, hs]
  exact getElem?_body_line (t.prepared hsteady complete t.inputs).ready.within s

section Routine

variable {root : Nat} {base : List String} (hkind : t.kind = .forLoop)
  (complete : ctx.Complete) (h₀ : Steady ctx root base s₀ e₀)

include hkind complete h₀

/-- The head of a loop and its body stand in the finished routine. -/
theorem exists_bound_walk :
    ∃ k, ((walk ctx s₀ e₀).blocks.body t.step.block)[k]?
        = some (.line (.openFor (loopIndex ctx t.node) (t.operand "count")))
      ∧ ((walk ctx s₀ e₀).blocks.body t.step.block)[k + 1]?
        = some (.block .nested t.bodyBlock) := by
  obtain ⟨k, hopen, hblock⟩ := t.exists_bound hkind complete (t.running.steady complete h₀)
  have hkeeps := t.keeps_walk complete h₀
  exact ⟨k, hkeeps.body hopen, hkeeps.body hblock⟩

/-- **The head of a loop stands in front of its body** in the finished text. -/
theorem exists_head_walk :
    ∃ k count, ((walk ctx s₀ e₀).blocks.body t.step.block)[k]?
        = some (.line (.openFor (loopIndex ctx t.node) count))
      ∧ ((walk ctx s₀ e₀).blocks.body t.step.block)[k + 1]?
        = some (.block .nested t.bodyBlock) := by
  obtain ⟨k, hbound⟩ := t.exists_bound_walk hkind complete h₀
  exact ⟨k, _, hbound⟩

/-- What a turn in the body reads is assigned in the body, ahead of the place
    of its statement in the finished routine, unless it was computed ahead of
    the loop. -/
theorem exists_use_in_body
    (hfirst : t.definition.execOutputs[0]?.map Param.id = some "loop_body")
    (hapart : Apart ctx root base s₀ e₀) (u : Turn ctx t.bodySteps t.visited.2)
    {param name : String} {output : Endpoint} {kind : ParamKind} (hparam : param ∈ u.inputs)
    (hsource : ctx.source u.node param = .temporary name output kind)
    (hholds : ctx.Holds name output.node) :
    ∃ use, u.statement? = some use
      ∧ ((walk ctx s₀ e₀).blocks.body u.step.block)[u.place]? = some (.line use)
      ∧ .temporary name ∈ use.operands
      ∧ ((walk ctx s₀ e₀).blocks.AssignedWithin t.bodyBlock name u.step.block u.place
        ↔ ctx.isReader output.node = true
          ∨ output.node ∉ u.step.node :: t.visited.2.path.latest) := by
  have hsteady := t.running.steady complete h₀
  have hbody := t.steady_body hkind hfirst complete hsteady
  have hbody' := t.apart_body complete hsteady (t.running.apart complete h₀ hapart)
  obtain ⟨use, hstatement, huse, hoperand⟩ := (t.ofBody u).exists_use complete h₀ hparam
  -- what is ahead of the statement in the end was ahead of it when it was written
  refine ⟨use, hstatement, huse, ?_, ((t.ofBody u).assignedWithin_walk_iff complete h₀).trans ?_⟩
  · have hnode : (t.ofBody u).node = u.node := rfl
    rw [hnode, hsource] at hoperand
    exact hoperand
  · exact u.assigned_iff (u.running.steady complete hbody) (u.running.apart complete hbody hbody')
      complete hparam hsource hholds

end Routine

end Turn

/-- The first output of a loop is its body, over a catalog whose loops have it
    there. -/
theorem execOutputs_of_forLoop {b : Blueprint} {catalog : Catalog} {options : Options}
    (hcatalog : catalog.definitions.all Definition.entersBody = true) {s₀ : List Step}
    {e₀ : Emission} (t : Turn (.of b catalog options) s₀ e₀) (hkind : t.kind = .forLoop) :
    t.definition.execOutputs[0]?.map Param.id = some "loop_body" := by
  have hmem : t.definition ∈ catalog.definitions := Catalog.mem_of_find? t.known
  have hd := List.all_eq_true.1 hcatalog _ hmem
  rw [Definition.entersBody, t.ofKind, hkind] at hd
  simpa using hd

/-- **What is computed anew in the body of a loop.**  Over the palette, every
    loop that a routine comes to has a block for its body behind its head.
    Where a node that is reached from there by the outputs into the body reads
    a pure node, its own statement stands at its own place in the routine and
    uses the temporary of that node; and the temporary is assigned ahead of
    this very place in the body, or in a block under it, exactly if

    * the pure node counts as a variable reader, or
    * it is not the node that reads, and not on the path with which the loop
      was left.

    Whether the value depends on the index of the loop does not matter: one
    that was computed ahead of the loop is not computed again. -/
theorem loop_body_recomputes (b : Blueprint) (options : Options) (entries : List Node)
    (findings : Findings) :
    let ctx := Context.of b .builtin options
    let routine := (writeRoutine ctx entries findings).blocks
    ∀ loop : Turn ctx (entrySteps entries { findings }).1 (entrySteps entries { findings }).2,
      loop.kind = .forLoop →
      (∃ k count, (routine.body loop.step.block)[k]?
          = some (.line (.openFor (loopIndex ctx loop.node) count))
        ∧ (routine.body loop.step.block)[k + 1]? = some (.block .nested loop.bodyBlock))
      ∧ ∀ (t : Turn ctx loop.bodySteps loop.visited.2) (param name : String) (producer : Endpoint)
          (kind : ParamKind), param ∈ t.inputs →
          ctx.source t.node param = .temporary name producer kind →
          ctx.index.isPure ctx.catalog producer.node = true →
          ∃ use, t.statement? = some use
            ∧ (routine.body t.step.block)[t.place]? = some (.line use)
            ∧ .temporary name ∈ use.operands
            ∧ (routine.AssignedWithin loop.bodyBlock name t.step.block t.place
              ↔ ctx.isReader producer.node = true
                ∨ producer.node ∉ t.step.node :: loop.visited.2.path.latest) := by
  intro ctx routine loop hkind
  have complete : ctx.Complete := complete_builtin b options
  have hfirst := execOutputs_of_forLoop entersBody_builtin loop hkind
  have hstart := steady_entrySteps ctx entries findings
  refine ⟨loop.exists_head_walk hkind complete hstart, ?_⟩
  intro t param name producer kind hparam hsource hpure
  exact loop.exists_use_in_body hkind complete hstart hfirst
    (apart_entrySteps ctx entries findings) t hparam hsource
    (holds_of_source complete hsource hpure)

/-! ### An index that is printed ahead of its loop and watched in it -/

namespace WatchedIndex

def start : Node := ⟨"start", "function_start", "", {}, [], []⟩

def print : Node := ⟨"show", "print", "", {}, [], []⟩

def loop : Node := ⟨"loop", "for_loop", "", {}, [("count", .int 3)], []⟩

def watch : Node := ⟨"watch", "debug_watch", "", {}, [], []⟩

def next : Node := ⟨"next", "add_numbers", "", {}, [("b", .int 1)], []⟩

def text : Node := ⟨"text", "to_string", "", {}, [], []⟩

def blueprint : Blueprint where
  kind := .function
  nodes := [start, print, loop, watch, next, text]
  connections := [⟨"c1", ⟨"start", "exec"⟩, ⟨"show", "exec"⟩⟩,
    ⟨"c2", ⟨"show", "exec"⟩, ⟨"loop", "exec"⟩⟩,
    ⟨"c3", ⟨"loop", "loop_body"⟩, ⟨"watch", "exec"⟩⟩,
    ⟨"c4", ⟨"loop", "index"⟩, ⟨"next", "a"⟩⟩, ⟨"c5", ⟨"loop", "index"⟩, ⟨"text", "value"⟩⟩,
    ⟨"c6", ⟨"next", "result"⟩, ⟨"show", "value"⟩⟩,
    ⟨"c7", ⟨"next", "result"⟩, ⟨"watch", "value"⟩⟩,
    ⟨"c8", ⟨"text", "result"⟩, ⟨"watch", "label"⟩⟩]

/-- The emission with which the function starts. -/
def entered : Emission := (entrySteps [start] { findings := {} }).2

/-- The step to the start node. -/
def first : Step := ⟨"start", .empty, 1⟩

/-- The emission from which the next index is printed. -/
def started : Emission := (first.visited (.of blueprint .builtin {}) start entered).2

/-- The step to the print node. -/
def second : Step := ⟨"show", (first.visited (.of blueprint .builtin {}) start entered).2.path, 1⟩

/-- The emission from which the loop is written. -/
def printed : Emission := (second.visited (.of blueprint .builtin {}) print started).2

/-- The step to the loop. -/
def third : Step :=
  ⟨"loop", (second.visited (.of blueprint .builtin {}) print started).2.path, 1⟩

/-- What the loop leaves. -/
def looped : Visited := third.visited (.of blueprint .builtin {}) loop printed

/-- The step into the body. -/
def fourth : Step := ⟨"watch", looped.2.path, 2⟩

/-- The way into the body, and what is read there, by evaluation. -/
theorem way_into_watched_body :
    ((Context.of blueprint .builtin {}).index.node? "start" = some start
      ∧ (first.visited (.of blueprint .builtin {}) start entered).1 = [⟨"show", 1⟩]
      ∧ second.path.contains "show" = false
      ∧ (Context.of blueprint .builtin {}).index.node? "show" = some print
      ∧ (second.visited (.of blueprint .builtin {}) print started).1 = [⟨"loop", 1⟩]
      ∧ third.path.contains "loop" = false
      ∧ (Context.of blueprint .builtin {}).index.node? "loop" = some loop
      ∧ (Context.of blueprint .builtin {}).catalog.kind? loop = some .forLoop)
    ∧ (looped.1 = [⟨"watch", 2⟩]
      ∧ ((Context.of blueprint .builtin {}).index.outgoing ⟨"loop", "loop_body"⟩).length = 1
      ∧ fourth.path.contains "watch" = false
      ∧ (Context.of blueprint .builtin {}).index.node? "watch" = some watch
      ∧ (Context.of blueprint .builtin {}).catalog.kind? watch = some .debugWatch)
    ∧ ((Context.of blueprint .builtin {}).source watch "value"
        = .temporary "add_4_result" ⟨"next", "result"⟩ .number
      ∧ (Context.of blueprint .builtin {}).source watch "label"
        = .temporary "tostring_5_result" ⟨"text", "result"⟩ .string
      ∧ (Context.of blueprint .builtin {}).source next "a"
        = .temporary "forloop_2_index" ⟨"loop", "index"⟩ .number
      ∧ (Context.of blueprint .builtin {}).source text "value"
        = .temporary "forloop_2_index" ⟨"loop", "index"⟩ .number)
    ∧ (Context.of blueprint .builtin {}).index.isPure (Context.of blueprint .builtin {}).catalog
      "next" = true
    ∧ (Context.of blueprint .builtin {}).index.isPure (Context.of blueprint .builtin {}).catalog
      "text" = true
    ∧ (Context.of blueprint .builtin {}).isReader "next" = false
    ∧ "next" ∈ looped.2.path.latest ∧ "text" ∉ looped.2.path.latest := by
  decide +kernel

/-- Both values that are watched depend on the index, and both are read in the
    one line of the watch.  The text is computed ahead of it in the body; the
    next index, which was printed ahead of the loop, is not. -/
theorem text_recomputed_and_next_not :
    ∃ (t : Turn (.of blueprint .builtin {}) (entrySteps [start] { findings := {} }).1
        (entrySteps [start] { findings := {} }).2)
      (u : Turn (.of blueprint .builtin {}) t.bodySteps t.visited.2),
      t.node = loop ∧ u.node = watch
      ∧ ∃ use, u.statement? = some use
        ∧ ((writeRoutine (.of blueprint .builtin {}) [start] {}).blocks.body
            u.step.block)[u.place]? = some (.line use)
        ∧ .temporary "tostring_5_result" ∈ use.operands
        ∧ .temporary "add_4_result" ∈ use.operands
        ∧ (writeRoutine (.of blueprint .builtin {}) [start] {}).blocks.AssignedWithin
            t.bodyBlock "tostring_5_result" u.step.block u.place
        ∧ ¬(writeRoutine (.of blueprint .builtin {}) [start] {}).blocks.AssignedWithin
            t.bodyBlock "add_4_result" u.step.block u.place := by
  obtain ⟨⟨hstart, hshow, hnew, hprint, hloop, hnew', hnode, hkind⟩,
    ⟨hexits, hlength, hnew'', hwatch, hkind'⟩, ⟨hvalue, hlabel, -, -⟩,
    hpure, hpure', hreader, hearly, hlate⟩ := way_into_watched_body
  have hfirst : Walking (.of blueprint .builtin {}) [first] entered [second] started :=
    Walking.start.next rfl hstart hshow
  have hsecond : Walking (.of blueprint .builtin {}) (entrySteps [start] { findings := {} }).1
      (entrySteps [start] { findings := {} }).2 [third] printed := hfirst.next hnew hprint hloop
  obtain ⟨t, hstep, -, hbefore, hloopNode, hloopKind⟩ := hsecond.exists_turn hnew' hnode hkind
  have hvisited : t.visited = looped := by
    rw [Turn.visited, hstep, hbefore, hloopNode]
    rfl
  -- said of the turn before another turn depends on what it leaves
  rw [← hvisited] at hearly hlate
  have hsteps : t.bodySteps = [fourth] := by
    rw [Turn.bodySteps, hvisited, Visited.steps, hexits, hloopNode]
    exact congrArg (List.take · [fourth]) hlength
  have hinto : Walking (.of blueprint .builtin {}) t.bodySteps t.visited.2 [fourth] looped.2 := by
    rw [hsteps, hvisited]
    exact .start
  obtain ⟨u, hstep', -, -, hwatchNode, hwatchKind⟩ := hinto.exists_turn hnew'' hwatch hkind'
  have hinputs : u.inputs = ["value", "label"] := by
    rw [Turn.inputs, hwatchKind]
    rfl
  obtain ⟨-, hbody⟩ := loop_body_recomputes blueprint {} [start] {} t hloopKind
  obtain ⟨use, hstates, huse, htext, htext'⟩ := hbody u "label" "tostring_5_result"
    ⟨"text", "result"⟩ .string (by simp [hinputs]) (hwatchNode ▸ hlabel) hpure'
  obtain ⟨use', hstates', -, hnext, hnext'⟩ := hbody u "value" "add_4_result"
    ⟨"next", "result"⟩ .number (by simp [hinputs]) (hwatchNode ▸ hvalue) hpure
  -- one turn has one statement, so both values are read in the same line
  obtain rfl : use = use' := Option.some.inj (hstates.symm.trans hstates')
  refine ⟨t, u, hloopNode, hwatchNode, use, hstates, huse, htext, hnext, htext'.2 (Or.inr ?_), ?_⟩
  · intro hmem
    rw [hstep'] at hmem
    exact hlate ((List.mem_cons.1 hmem).resolve_left (by decide))
  · intro hassigned
    rcases hnext'.1 hassigned with hreader' | hnot
    · rw [hreader] at hreader'
      cases hreader'
    · exact hnot (List.mem_cons_of_mem _ hearly)

end WatchedIndex

end Blueprints
