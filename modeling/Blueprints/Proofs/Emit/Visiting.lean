import Blueprints.Emit.Walk
import Blueprints.Proofs.Emit.Availability

/-! # The shape of a visit

    A visit first reads the inputs of its node, then writes the statement of
    the node (`NodeKind.statement?`), and after that only *bare* lines, which
    hold no value, and reserves blocks (`Arena.Quietly`).  Its exits are
    ready if the place behind the statement is (`goesOn_visitKind`): blocks are
    reserved after the statement, each at the end of another one. -/

namespace Blueprints

open Arena

/-! ## The statement of a node -/

/-- The inputs from which a node of a kind takes its values. -/
def NodeKind.inputs (ctx : Context) (n : Node) : NodeKind → List String
  | .pure kind => kind.slots
  | kind => kind.slots ctx n

/-- The statement of a node of a kind, from the operands of its inputs. -/
def NodeKind.statement? (ctx : Context) (n : Node) (d : Definition) (operand : String → Operand) :
    NodeKind → Option Statement
  | .print =>
    some (.log
      (if ctx.isConnected n "value" then operand "value" else .literal (printedLiteral n)))
  | .debugLog => some (.log (operand "message"))
  | .delay => some (.delay (operand "duration"))
  | .setVariable => some (.assignVariable (ctx.variableOf n d) (operand "value"))
  | .debugBreak => some .debugger
  | .debugWatch => some (.watch (operand "label") (operand "value"))
  | .pure kind => (ctx.result? n d).map fun result => .assign result.1 (kind.expr ctx n d operand)
  | .branch => some (.openIf (operand "condition"))
  | .forLoop => some (.openFor (loopIndex ctx n) (operand "count"))
  | .switch => some (.openSwitch (operand "value"))
  | _ => none

section Statements

variable {ctx : Context} {n : Node} {d : Definition} {operand : String → Operand}
  {kind : NodeKind} {s : Statement}

/-- The values of a statement are those that were read, and literals. -/
theorem NodeKind.mem_operands_statement? (hs : kind.statement? ctx n d operand = some s)
    {o : Operand} (ho : o ∈ s.operands) :
    (∃ slot ∈ kind.inputs ctx n, o = operand slot) ∨ ∃ v, o = .literal v := by
  cases kind with
  | print =>
      obtain rfl := Option.some.inj hs
      obtain rfl := List.mem_singleton.1 ho
      cases hconnected : ctx.isConnected n "value" with
      | true => exact Or.inl ⟨"value", by simp [inputs, slots, hconnected], rfl⟩
      | false => exact Or.inr ⟨_, rfl⟩
  | debugLog | delay | setVariable | branch | forLoop | switch =>
      obtain rfl := Option.some.inj hs
      exact Or.inl ⟨_, List.mem_singleton_self _, List.mem_singleton.1 ho⟩
  | debugBreak =>
      obtain rfl := Option.some.inj hs
      exact absurd ho List.not_mem_nil
  | debugWatch =>
      obtain rfl := Option.some.inj hs
      simp only [Statement.operands, List.mem_cons, List.not_mem_nil, or_false] at ho
      rcases ho with rfl | rfl
      · exact Or.inl ⟨"label", by simp [inputs, slots], rfl⟩
      · exact Or.inl ⟨"value", by simp [inputs, slots], rfl⟩
  | pure =>
      obtain ⟨result, -, rfl⟩ := Option.map_eq_some_iff.1 hs
      rw [Statement.operands, PureKind.operands_expr] at ho
      obtain ⟨slot, hslot, rfl⟩ := List.mem_map.1 ho
      exact Or.inl ⟨slot, hslot, rfl⟩
  | _ => exact nomatch hs

/-- Every input that is read is used by the statement. -/
theorem NodeKind.exists_statement?_of_input {slot : String} (hslot : slot ∈ kind.inputs ctx n)
    (hresult : ∀ k, kind = .pure k → ctx.result? n d ≠ none) :
    ∃ s, kind.statement? ctx n d operand = some s ∧ operand slot ∈ s.operands := by
  cases kind with
  | print =>
      cases hconnected : ctx.isConnected n "value" with
      | true =>
          simp only [inputs, slots, hconnected, if_true, List.mem_singleton] at hslot
          subst hslot
          refine ⟨_, rfl, ?_⟩
          simp [Statement.operands, hconnected]
      | false => simp [inputs, slots, hconnected] at hslot
  | debugLog | delay | setVariable | branch | forLoop | switch =>
      obtain rfl := List.mem_singleton.1 hslot
      exact ⟨_, rfl, List.mem_singleton_self _⟩
  | debugWatch =>
      simp only [inputs, slots, List.mem_cons, List.not_mem_nil, or_false] at hslot
      rcases hslot with rfl | rfl
      · exact ⟨_, rfl, by simp [Statement.operands]⟩
      · exact ⟨_, rfl, by simp [Statement.operands]⟩
  | pure k =>
      obtain ⟨result, hsome⟩ := Option.ne_none_iff_exists'.1 (hresult k rfl)
      refine ⟨.assign result.1 (k.expr ctx n d operand), ?_, ?_⟩
      · rw [statement?, hsome]
        rfl
      · rw [Statement.operands, PureKind.operands_expr]
        exact List.mem_map_of_mem hslot
  | _ => exact absurd hslot List.not_mem_nil

end Statements

/-! ## Bare lines -/

/-- Whether a line holds no value: it opens or closes something, or it is a
    comment. -/
def Statement.isBare : Statement → Bool
  | .blank | .comment _ | .openCase _ | .leaveCase | .openTask _ | .closeTask | .awaitTasks _
  | .close => true
  | _ => false

/-- A bare line has no operands. -/
theorem Statement.operands_of_isBare {s : Statement} (h : s.isBare = true) : s.operands = [] := by
  cases s with
  | blank | comment | openCase | leaveCase | openTask | closeTask | awaitTasks | close => rfl
  | _ => exact nomatch h

/-- The second arena has come from the first by bare lines and reserved
    blocks, in a block and in new ones. -/
structure Arena.Quietly (b : Nat) (a a' : Arena Statement) : Prop extends Extends b a a' where
  lines : ∀ {x i : Nat} {s : Statement}, (a'.body x)[i]? = some (.line s) →
    (a.body x)[i]? = some (.line s) ∨ s.isBare = true

section Quiet

variable {a a' a'' : Arena Statement} {b : Nat}

theorem Arena.Quietly.refl (b : Nat) (a : Arena Statement) : a.Quietly b a :=
  ⟨.refl b a, Or.inl⟩

/-- Quiet parts can be joined, if the second one goes on in the block of the first
    or in a new one. -/
theorem Arena.Quietly.trans {b' : Nat} (h : a.Quietly b a') (h' : a'.Quietly b' a'')
    (hb' : b' = b ∨ a.size ≤ b') : a.Quietly b a'' := by
  refine ⟨h.toExtends.trans h'.toExtends hb', fun hline => ?_⟩
  rcases h'.lines hline with hold | hbare
  · exact h.lines hold
  · exact Or.inr hbare

/-- A bare line is quiet. -/
theorem Arena.quietly_line (a : Arena Statement) (b : Nat) {s : Statement}
    (hbare : s.isBare = true) : a.Quietly b (a.line b s) := by
  refine ⟨extends_line a b s, fun hline => ?_⟩
  rcases getElem?_line_cases hline with hold | ⟨-, -, hnew⟩
  · exact Or.inl hold
  · obtain rfl := Item.line.inj hnew
    exact Or.inr hbare

/-- A reserved block is quiet. -/
theorem Arena.quietly_reserve (a : Arena Statement) (place : Place) (b : Nat) :
    a.Quietly b (a.reserve place b).2 := by
  refine ⟨extends_reserve a place b, fun hline => ?_⟩
  rcases getElem?_reserve_cases hline with hold | ⟨-, -, hnew⟩
  · exact Or.inl hold
  · exact nomatch hnew

/-- The comment ahead of a node is quiet. -/
theorem Arena.quietly_announce (e : Emission) (ctx : Context) (n : Node) (d : Definition)
    (kind : NodeKind) (b : Nat) : e.blocks.Quietly b (e.announce ctx n d kind b).blocks := by
  rw [Emission.announce]
  split
  · exact quietly_line e.blocks b rfl
  · exact .refl b _

/-- What is not bare and stands before the block or a new one stands at the
    end of the block already. -/
theorem Arena.Quietly.before (h : a.Quietly b a') (closed : a.Closed) {c j x i : Nat}
    {s : Statement} (hbare : s.isBare = false) (hline : (a'.body c)[j]? = some (.line s))
    (hbefore : a'.Before c j x i) (hx : x = b ∨ a.size ≤ x) :
    (a.body c)[j]? = some (.line s) ∧ a.Before c j b (a.body b).length := by
  have hold : (a.body c)[j]? = some (.line s) := by
    rcases h.lines hline with hold | hbare'
    · exact hold
    · rw [hbare] at hbare'
      exact nomatch hbare'
  refine ⟨hold, ?_⟩
  induction hbefore with
  | inside hlt =>
      obtain ⟨hj, -⟩ := List.getElem?_eq_some_iff.1 hold
      have hc := lt_size_of_getElem? hold
      obtain rfl : c = b := by omega
      exact .inside hj
  | deeper hbefore hput ih =>
      rcases h.new hput with hput | ⟨hp, -⟩
      · -- an old block that is put: it is the block itself
        have hchild := closed (List.mem_of_getElem? hput)
        obtain ⟨hk, -⟩ := List.getElem?_eq_some_iff.1 hput
        obtain ⟨hbefore, -⟩ := h.toExtends.before hbefore (lt_size_of_getElem? hput)
          (Nat.le_of_lt hk)
        obtain rfl := hx.resolve_right (by omega)
        exact .deeper hbefore hput
      · exact ih hp

end Quiet

/-! ## Going on -/

/-- The second emission has come from the first by bare lines and reserved
    blocks. -/
structure Leads (b : Nat) (e e' : Emission) : Prop where
  quiet : e.blocks.Quietly b e'.blocks
  path : e'.path = e.path
  fresh : e'.fresh = e.fresh

/-- A visit has gone on quietly from an emission, at the end of a block, to
    exits that are ready for the nodes of a path: the block itself or new
    ones, each of them once. -/
structure GoesOn (ctx : Context) (root : Nat) (base ids : List String) (b : Nat) (e : Emission)
    (v : Visited) : Prop extends Leads b e v.2 where
  exits : ∀ x ∈ v.1, Ready ctx root base v.2.blocks ids x.block
  apart : ∀ x ∈ v.1, x.block = b ∨ e.blocks.size ≤ x.block
  distinct : (v.1.map Exit.block).Nodup

section GoingOn

variable {ctx : Context} {root : Nat} {base ids : List String} {b c c' : Nat} {e e' : Emission}
  {n : Node} {d : Definition} {v w : Visited}

theorem Ready.emit (h : Ready ctx root base e.blocks ids b) (c : Nat) (s : Statement) :
    Ready ctx root base (e.emit c s).blocks ids b :=
  h.keeps (keeps_line e.blocks c s)

theorem Ready.reserve (h : Ready ctx root base e.blocks ids b) (place : Place) (c : Nat) :
    Ready ctx root base (e.reserve place c).2.blocks ids b :=
  h.keeps (keeps_reserve e.blocks place c)

theorem Ready.inner (h : Ready ctx root base e.blocks ids b) (place : Place) :
    Ready ctx root base (e.reserve place b).2.blocks ids (e.reserve place b).1 :=
  h.child place

theorem leads_line (b : Nat) (e : Emission) (s : Statement) (hbare : s.isBare = true) :
    Leads b e (e.emit b s) :=
  ⟨quietly_line e.blocks b hbare, rfl, rfl⟩

theorem leads_reserve (b : Nat) (e : Emission) (place : Place) :
    Leads b e (e.reserve place b).2 :=
  ⟨quietly_reserve e.blocks place b, rfl, rfl⟩

theorem Leads.trans {e'' : Emission} (h : Leads b e e') (h' : Leads c e' e'')
    (hc : c = b ∨ e.blocks.size ≤ c) : Leads b e e'' :=
  ⟨h.quiet.trans h'.quiet hc, h'.path.trans h.path, h'.fresh.trans h.fresh⟩

theorem goesOn_none (b : Nat) (e : Emission) : GoesOn ctx root base ids b e ([], e) :=
  ⟨⟨.refl b _, rfl, rfl⟩, nofun, nofun, List.nodup_nil⟩

/-- A visit may go on in its own block. -/
theorem goesOn_one (h : Ready ctx root base e.blocks ids b) (id : String) :
    GoesOn ctx root base ids b e ([⟨id, b⟩], e) := by
  refine ⟨⟨.refl b _, rfl, rfl⟩, fun x hx => ?_, fun x hx => ?_, List.nodup_singleton _⟩
  · obtain rfl := List.mem_singleton.1 hx
    exact h
  · obtain rfl := List.mem_singleton.1 hx
    exact Or.inl rfl

/-- Going on from where one has come without an exit. -/
theorem GoesOn.after (h' : GoesOn ctx root base ids c e' v) (h : Leads b e e')
    (hc : c = b ∨ e.blocks.size ≤ c) : GoesOn ctx root base ids b e v := by
  refine ⟨h.trans h'.toLeads hc, h'.exits, fun x hx => ?_, h'.distinct⟩
  have hsize := h.quiet.keeps.size
  have := h'.apart x hx
  omega

/-- What else an emission holds does not matter. -/
theorem GoesOn.agrees (h : GoesOn ctx root base ids b e v) (hsame : Agrees e' e) :
    GoesOn ctx root base ids b e' v := by
  obtain ⟨⟨hquiet, hpath, hfresh⟩, hexits, hapart, hdistinct⟩ := h
  rw [hsame.blocks] at hquiet hapart
  exact ⟨⟨hquiet, hpath.trans hsame.path, hfresh.trans hsame.fresh⟩, hexits, hapart, hdistinct⟩

/-- Going on in one block and then in another one. -/
theorem GoesOn.both (hv : GoesOn ctx root base ids c e' v) (hw : GoesOn ctx root base ids c' v.2 w)
    (h : Leads b e e') (hc : c = b ∨ e.blocks.size ≤ c) (hc' : c' = b ∨ e.blocks.size ≤ c')
    (hlt : c' < e'.blocks.size) (hne : c ≠ c') :
    GoesOn ctx root base ids b e (v.1 ++ w.1, w.2) := by
  have hsize := h.quiet.keeps.size
  have hsize' := hv.quiet.keeps.size
  refine ⟨(h.trans hv.toLeads hc).trans hw.toLeads hc', fun x hx => ?_, fun x hx => ?_, ?_⟩
  · rcases List.mem_append.1 hx with hx | hx
    · exact (hv.exits x hx).keeps hw.quiet.keeps
    · exact hw.exits x hx
  · rcases List.mem_append.1 hx with hx | hx
    · have := hv.apart x hx
      omega
    · have := hw.apart x hx
      omega
  · rw [List.map_append, List.nodup_append]
    refine ⟨hv.distinct, hw.distinct, ?_⟩
    -- the exits of the second are in its block or in blocks newer than the first
    rintro _ hfirst _ hsecond rfl
    obtain ⟨x, hx, rfl⟩ := List.mem_map.1 hfirst
    obtain ⟨y, hy, heq⟩ := List.mem_map.1 hsecond
    have hwithin := (hv.exits x hx).within
    have hx := hv.apart x hx
    have hy := hw.apart y hy
    omega

/-- Each connection goes on in a block of its own. By induction on the
    connections. -/
theorem goesOn_spread (conns : List Connection) (h : Ready ctx root base e.blocks ids b) :
    GoesOn ctx root base ids b e (spread b conns e) := by
  induction conns generalizing e with
  | nil => exact goesOn_none b e
  | cons conn rest ih =>
      have hb := h.within
      have hchild := goesOn_one (h.inner .inline) conn.target.node
      have hrest := ih (h.reserve .inline b)
      exact hchild.both hrest (leads_reserve b e .inline) (Or.inr (Nat.le_refl _)) (Or.inl rfl)
        (h.reserve .inline b).within (Nat.ne_of_gt hb)

/-- A single connection goes on in the same block. -/
theorem goesOn_goOn (conns : List Connection) (h : Ready ctx root base e.blocks ids b) :
    GoesOn ctx root base ids b e (goOn b conns e) := by
  rw [goOn.eq_def]
  split
  · exact goesOn_one h _
  · exact goesOn_spread _ h

theorem goesOn_goOnBy (output : Option Param) (h : Ready ctx root base e.blocks ids b) :
    GoesOn ctx root base ids b e (goOnBy ctx n output b e) := by
  cases output with
  | none => exact goesOn_none b e
  | some p => exact goesOn_goOn _ h

/-- **Tasks go on in blocks of their own**, nested in the lines that open and close
    them. By induction on the connections. -/
theorem goesOn_startTasks (stem : String) (k : Nat) (conns : List Connection)
    (h : Ready ctx root base e.blocks ids b) :
    GoesOn ctx root base ids b e (startTasks stem b k conns e).2 := by
  induction conns generalizing k e with
  | nil => exact goesOn_none b e
  | cons conn rest ih =>
      have hname : Leads b e (e.newLocal (stem ++ Nat.repr k)).2 := ⟨.refl b _, rfl, rfl⟩
      have hopen := Ready.emit (e := (e.newLocal (stem ++ Nat.repr k)).2) h b
        (.openTask (e.newLocal (stem ++ Nat.repr k)).1)
      have hbody := (hopen.inner .nested).emit b .closeTask
      have hclosed := (hopen.reserve .nested b).emit b .closeTask
      have hstart := ((hname.trans
        (leads_line b _ (.openTask (e.newLocal (stem ++ Nat.repr k)).1) rfl) (Or.inl rfl)).trans
        (leads_reserve b _ .nested) (Or.inl rfl)).trans (leads_line b _ .closeTask rfl) (Or.inl rfl)
      have hsize : (((e.newLocal (stem ++ Nat.repr k)).2.emit b
          (.openTask (e.newLocal (stem ++ Nat.repr k)).1)).reserve .nested b).1
            = e.blocks.size := size_line ..
      refine (goesOn_one hbody conn.target.node).both (ih (k + 1) hclosed) hstart
        (Or.inr (Nat.le_of_eq hsize.symm)) (Or.inl rfl) hclosed.within ?_
      rw [hsize]
      exact Nat.ne_of_gt h.within

/-- After the tasks comes the line that waits for them. -/
theorem goesOn_visitParallel (h : Ready ctx root base e.blocks ids b) :
    GoesOn ctx root base ids b e (visitParallel ctx n d b e) := by
  rw [visitParallel]
  cases newBranches ctx n d e with
  | nil => exact goesOn_none b e
  | cons conn rest =>
      obtain ⟨⟨hquiet, hpath, hfresh⟩, hexits, hapart, hdistinct⟩ :=
        goesOn_startTasks ("task_" ++ n.numericSuffix?.getD "0" ++ "_") 1 (conn :: rest)
          (e := e.setAsync) h
      exact ⟨⟨hquiet.trans (quietly_line _ b rfl) (Or.inl rfl), hpath, hfresh⟩,
        fun x hx => (hexits x hx).emit b _, hapart, hdistinct⟩

/-- **A branch goes on in two blocks**, both behind its head. -/
theorem goesOn_visitBranch (condition : Operand)
    (hopen : Ready ctx root base (e.emit b (.openIf condition)).blocks ids b) :
    GoesOn ctx root base ids b (e.emit b (.openIf condition))
      (visitBranch ctx n d condition b e) := by
  have hyes := ((hopen.inner .nested).reserve .otherwise b).emit b .close
  have hno := ((hopen.reserve .nested b).inner .otherwise).emit b .close
  have hfirst := goesOn_goOnBy (n := n) d.execOutputs[0]? hyes
  have hsecond := goesOn_goOnBy (n := n) d.execOutputs[1]? (hno.keeps hfirst.quiet.keeps)
  have hstart := ((leads_reserve b (e.emit b (.openIf condition)) .nested).trans
    (leads_reserve b _ .otherwise) (Or.inl rfl)).trans (leads_line b _ .close rfl) (Or.inl rfl)
  have hsize : (((e.emit b (.openIf condition)).reserve .nested b).2.reserve .otherwise b).1
      = (e.emit b (.openIf condition)).blocks.size + 1 := size_reserve ..
  refine hfirst.both hsecond hstart (Or.inr (Nat.le_refl _)) (Or.inr ?_) hno.within ?_
  · rw [hsize]
    exact Nat.le_succ _
  · rw [hsize]
    exact Nat.ne_of_lt (Nat.lt_succ_self _)

/-- **A loop goes on in its body and behind it.** -/
theorem goesOn_visitLoop (count : Operand)
    (hopen : Ready ctx root base
      ((e.declare (loopIndex ctx n) "number").emit b (.openFor (loopIndex ctx n) count)).blocks
      ids b) :
    GoesOn ctx root base ids b
      ((e.declare (loopIndex ctx n) "number").emit b (.openFor (loopIndex ctx n) count))
      (visitLoop ctx n d count b e) := by
  have hbody := (hopen.inner .nested).emit b .close
  have hafter := (hopen.reserve .nested b).emit b .close
  have hfirst := goesOn_goOnBy (n := n) d.execOutputs[0]? hbody
  have hsecond := goesOn_goOnBy (n := n) d.execOutputs[1]? (hafter.keeps hfirst.quiet.keeps)
  have hstart := (leads_reserve b ((e.declare (loopIndex ctx n) "number").emit b
    (.openFor (loopIndex ctx n) count)) .nested).trans (leads_line b _ .close rfl) (Or.inl rfl)
  exact hfirst.both hsecond hstart (Or.inr (Nat.le_refl _)) (Or.inl rfl) hafter.within
    (Nat.ne_of_gt hopen.within)

/-- Cases go on in blocks of their own, ahead of the line that leaves them. By
    induction on the outputs. -/
theorem goesOn_writeCases (outputs : List Param) (h : Ready ctx root base e.blocks ids b) :
    GoesOn ctx root base ids b e (writeCases ctx n b outputs e) := by
  induction outputs generalizing e with
  | nil => exact goesOn_none b e
  | cons p rest ih =>
      rw [writeCases]
      cases ctx.index.outgoing ⟨n.id, p.id⟩ with
      | nil => exact ih h
      | cons conn more =>
          have hopen := h.emit b (.openCase (.ofOutput p.id))
          have hcase := hopen.inner .nested
          have hbody := ((hcase.inner .inline).emit
            ((e.emit b (.openCase (.ofOutput p.id))).reserve .nested b).1 .leaveCase).emit b .close
          have hafter := (((hopen.reserve .nested b).reserve .inline
            ((e.emit b (.openCase (.ofOutput p.id))).reserve .nested b).1).emit
            ((e.emit b (.openCase (.ofOutput p.id))).reserve .nested b).1 .leaveCase).emit b .close
          have hfirst := goesOn_goOn (conn :: more) hbody
          have hothers := ih (hafter.keeps hfirst.quiet.keeps)
          -- the block of the case and the block in it are new
          have hnew : e.blocks.size
              ≤ ((e.emit b (.openCase (.ofOutput p.id))).reserve .nested b).1 :=
            (leads_line b e (.openCase (.ofOutput p.id)) rfl).quiet.keeps.size
          have hnew' := Nat.le_trans hnew (Nat.le_of_lt hcase.within)
          have hstart := ((((leads_line b e (.openCase (.ofOutput p.id)) rfl).trans
            (leads_reserve b _ .nested) (Or.inl rfl)).trans (leads_reserve _ _ .inline)
            (Or.inr hnew)).trans (leads_line _ _ .leaveCase rfl) (Or.inr hnew)).trans
            (leads_line b _ .close rfl) (Or.inl rfl)
          exact hfirst.both hothers hstart (Or.inr hnew') (Or.inl rfl) hafter.within
            (Nat.ne_of_gt (Nat.lt_of_lt_of_le h.within hnew'))

/-- A switch goes on by its cases, all of them in one block. -/
theorem goesOn_visitSwitch (value : Operand)
    (hopen : Ready ctx root base (e.emit b (.openSwitch value)).blocks ids b) :
    GoesOn ctx root base ids b (e.emit b (.openSwitch value))
      (visitSwitch ctx n d value b e) := by
  have hcases := (hopen.inner .nested).emit b .close
  exact (goesOn_writeCases d.execOutputs hcases).after ((leads_reserve b (e.emit b
    (.openSwitch value)) .nested).trans (leads_line b _ .close rfl) (Or.inl rfl))
    (Or.inr (Nat.le_refl _))

/-- How a visit goes on whose node has not to be computed. -/
theorem goesOn_visitKind {kind : NodeKind} (hkind : ∀ k, kind ≠ .pure k)
    (operand : String → Operand)
    (h : Ready ctx root base (e.blocks.lines b (kind.statement? ctx n d operand).toList) ids b) :
    GoesOn ctx root base ids b
      (e.withBlocks (e.blocks.lines b (kind.statement? ctx n d operand).toList))
      (visitKind ctx n d kind operand b e) := by
  cases kind with
  | functionStart | lifecycle => exact goesOn_goOn _ h
  | functionParameter | finish => exact goesOn_none b e
  | functionReturn => exact (goesOn_none b (e.noteReturn n.id)).agrees ⟨rfl, rfl, rfl⟩
  | print | debugLog | setVariable | debugBreak | debugWatch =>
      exact (goesOn_goOn (e := e.emit b _) _ h).agrees ⟨rfl, rfl, rfl⟩
  | delay => exact (goesOn_goOn (e := e.setAsync.emit b _) _ h).agrees ⟨rfl, rfl, rfl⟩
  | pure k => exact absurd rfl (hkind k)
  | sequence => exact goesOn_spread _ h
  | parallel => exact goesOn_visitParallel h
  | branch => exact (goesOn_visitBranch (operand "condition") h).agrees ⟨rfl, rfl, rfl⟩
  | forLoop =>
      have hopen : ((e.declare (loopIndex ctx n) "number").emit b
          (.openFor (loopIndex ctx n) (operand "count"))).blocks
            = e.blocks.line b (.openFor (loopIndex ctx n) (operand "count")) := by
        rw [Emission.blocks_emit, Emission.blocks_declare]
      exact (goesOn_visitLoop (operand "count") (hopen ▸ h)).agrees ⟨hopen, rfl, rfl⟩
  | switch => exact (goesOn_visitSwitch (operand "value") h).agrees ⟨rfl, rfl, rfl⟩

/-- How a visit of a node goes on that has no kind. -/
theorem goesOn_visit_of_unknown (hkind : ctx.catalog.kind? n = none)
    (h : Ready ctx root base e.blocks ids b) : GoesOn ctx root base ids b e (visit ctx n b e) := by
  rw [Catalog.kind?] at hkind
  rw [visit, Context.definition?]
  cases hd : ctx.catalog.find? n.definitionId with
  | none =>
      dsimp only
      refine ⟨⟨quietly_line (s := .comment _) e.blocks b rfl, rfl, rfl⟩, ?_, ?_, List.nodup_nil⟩
      · intro s hs
        exact absurd hs List.not_mem_nil
      · intro s hs
        exact absurd hs List.not_mem_nil
  | some d =>
      rw [hd] at hkind
      dsimp only at hkind ⊢
      rw [hkind]
      have hgo : ∀ message text, GoesOn ctx root base ids b e (follow ctx n d b
          ((e.report .unsupportedKind n.id message).emit b (.comment text))) := by
        intro message text
        have hreport := Ready.emit (e := e.report .unsupportedKind n.id message) h b (.comment text)
        exact ((goesOn_goOn (ctx.index.execLeaving n d) hreport).after
          (leads_line b _ (.comment text) rfl) (Or.inl rfl)).agrees (agrees_report ..)
      exact hgo _ _

end GoingOn

end Blueprints
