import Blueprints.Proofs.Emit.Lines
import Blueprints.Proofs.Emit.Reachability

/-! # Acts — what writing a routine is made of

    However a routine is written, it is written by a few *acts*: a line is put
    at the end of a block, a block is reserved, a name is declared or bound,
    something is reported, and so on (`Emission.Act`).  Reading, computing,
    visiting and walking are acts one after the other (`Emission.Moves`).

    What all acts keep is therefore kept by all of these, and is proved by a
    case for each act.  One act is not free to be done anywhere: a routine is
    made to wait only for nodes that have to wait (`Context.Suspends`), and is
    made to wait for each of them (`isAsync_walk_iff`). -/

namespace Blueprints

open Arena

/-- One act.  Lines and blocks go into blocks that are there, a line that waits
    only into a routine that waits, and a routine is made to wait only where
    that is allowed. -/
inductive Emission.Act (waits : Prop) (e : Emission) : Emission → Prop where
  | emit {block : Nat} {s : Statement} (hblock : block < e.blocks.size)
      (hwait : s.awaits = true → e.routine.isAsync = true) : Act waits e (e.emit block s)
  | reserve (place : Place) {block : Nat} (hblock : block < e.blocks.size) :
      Act waits e (e.reserve place block).2
  | declare (name type : String) : Act waits e (e.declare name type)
  | newLocal (wanted : String) : Act waits e (e.newLocal wanted).2
  | setAsync (h : waits) : Act waits e e.setAsync
  | noteReturn (id : String) : Act waits e (e.noteReturn id)
  | report (kind : DiagnosticKind) (node message : String) :
      Act waits e (e.report kind node message)
  | goTo (path : Trail) : Act waits e (e.onPath path)
  | refresh (fresh : List String) : Act waits e { e with fresh := fresh }

/-- Acts one after the other. -/
inductive Emission.Moves (waits : Prop) (e : Emission) : Emission → Prop where
  | refl : Moves waits e e
  | act {e' e'' : Emission} (h : Moves waits e e') (hact : Act waits e' e'') : Moves waits e e''

namespace Emission

variable {waits waits' : Prop} {e e' e'' : Emission}

theorem Act.moves (h : Act waits e e') : Moves waits e e' := .act .refl h

/-- A line that does not wait can be written anywhere. -/
theorem Act.write {block : Nat} {s : Statement} (hblock : block < e.blocks.size)
    (hs : s.awaits = false) : Act waits e (e.emit block s) :=
  .emit hblock fun hwait => absurd (hs.symm.trans hwait) Bool.false_ne_true

/-- Moves after moves are moves. -/
theorem Moves.trans (h : Moves waits e e') (h' : Moves waits e' e'') : Moves waits e e'' := by
  induction h' with
  | refl => exact h
  | act _ hact ih => exact ih.act hact

/-! ## What acts keep -/

/-- **No act removes or changes what is written.** -/
theorem Act.keeps (h : Act waits e e') : e.blocks.Keeps e'.blocks := by
  cases h with
  | emit hblock hwait => exact keeps_line ..
  | reserve place hblock => exact keeps_reserve ..
  | declare name type =>
      rw [blocks_declare]
      exact .refl _
  | _ => exact .refl _

/-- So no move does. -/
theorem Moves.keeps (h : Moves waits e e') : e.blocks.Keeps e'.blocks := by
  induction h with
  | refl => exact .refl _
  | act _ hact ih => exact ih.trans hact.keeps

theorem Moves.lt_size {block : Nat} (h : Moves waits e e') (hblock : block < e.blocks.size) :
    block < e'.blocks.size :=
  Nat.lt_of_lt_of_le hblock h.keeps.size

/-- What is allowed where less is allowed is allowed where more is. -/
theorem Act.imp (hwaits : waits → waits') (h : Act waits e e') : Act waits' e e' := by
  cases h with
  | emit hblock hwait => exact .emit hblock hwait
  | reserve place hblock => exact .reserve place hblock
  | declare name type => exact .declare name type
  | newLocal wanted => exact .newLocal wanted
  | setAsync h => exact .setAsync (hwaits h)
  | noteReturn id => exact .noteReturn id
  | report kind node message => exact .report kind node message
  | goTo path => exact .goTo path
  | refresh fresh => exact .refresh fresh

/-- The same holds of moves. -/
theorem Moves.imp (hwaits : waits → waits') (h : Moves waits e e') : Moves waits' e e' := by
  induction h with
  | refl => exact .refl
  | act _ hact ih => exact ih.act (hact.imp hwaits)

theorem isAsync_declare (e : Emission) (name type : String) :
    (e.declare name type).routine.isAsync = e.routine.isAsync := by
  show (e.routine.declare name type).isAsync = _
  rw [Routine.declare]
  split
  · rfl
  · rfl

/-- An act makes a routine wait only where that is allowed, and none makes it
    stop. -/
theorem Act.isAsync (h : Act waits e e') :
    (e.routine.isAsync = true → e'.routine.isAsync = true)
      ∧ (e'.routine.isAsync = true → e.routine.isAsync = true ∨ waits) := by
  cases h with
  | setAsync h => exact ⟨fun _ => rfl, fun _ => Or.inr h⟩
  | declare name type =>
      rw [isAsync_declare]
      exact ⟨id, Or.inl⟩
  | _ => exact ⟨id, Or.inl⟩

/-- **A routine that waits goes on to do so, and is made to wait only where that
    is allowed.** -/
theorem Moves.isAsync (h : Moves waits e e') :
    (e.routine.isAsync = true → e'.routine.isAsync = true)
      ∧ (e'.routine.isAsync = true → e.routine.isAsync = true ∨ waits) := by
  induction h with
  | refl => exact ⟨id, Or.inl⟩
  | act _ hact ih =>
      refine ⟨fun h => hact.isAsync.1 (ih.1 h), fun h => ?_⟩
      rcases hact.isAsync.2 h with hbefore | hwaits
      · exact ih.2 hbefore
      · exact Or.inr hwaits

/-- The routine waits, and one of its lines does. -/
def Waits (e : Emission) : Prop :=
  e.routine.isAsync = true ∧ ∃ s, e.blocks.Has s ∧ s.awaits = true

theorem Waits.moves (hbefore : e.Waits) (h : Moves waits e e') : e'.Waits := by
  obtain ⟨hasync, s, ⟨x, i, hline⟩, hawaits⟩ := hbefore
  exact ⟨h.isAsync.1 hasync, s, ⟨x, i, h.keeps.body hline⟩, hawaits⟩

end Emission

/-! ## Reading -/

open Emission

/-- The report about several connections is one act at most. -/
theorem moves_reportFanIn (waits : Prop) (e : Emission) (ctx : Context) (n : Node)
    (param : String) : Moves waits e (e.reportFanIn ctx n param) := by
  unfold Emission.reportFanIn
  split
  · exact Act.moves (.report ..)
  · exact .refl

/-- So is the report about a connection that brings no value. -/
theorem moves_reportNoValue (waits : Prop) (e : Emission) (ctx : Context) (n : Node)
    (param : String) : Moves waits e (e.reportNoValue ctx n param) := by
  unfold Emission.reportNoValue
  split
  · exact Act.moves (.report ..)
  · exact .refl

/-- A node is settled by one act: it joins the path, or the readers computed for a
    read. -/
theorem moves_settle (waits : Prop) (e : Emission) (ctx : Context) (id : String) :
    Moves waits e (e.settle ctx id) := by
  unfold Emission.settle
  split
  · exact Act.moves (.refresh _)
  · exact Act.moves (.goTo _)

/-- Moves one after the other, each in a block that was there from the start. -/
theorem moves_foldl {α : Type} {waits : Prop} {block : Nat} {f : Emission → α → Emission}
    (hmoves : ∀ (e : Emission) a, block < e.blocks.size → Moves waits e (f e a)) (as : List α)
    (e : Emission) (hblock : block < e.blocks.size) : Moves waits e (as.foldl f e) := by
  induction as generalizing e with
  | nil => exact .refl
  | cons a as ih =>
      have hfirst := hmoves e a hblock
      exact hfirst.trans (ih (f e a) (hfirst.lt_size hblock))

section Reading

variable {ctx : Context} {waits : Prop} {computing : String → Emission → Emission}
  {active : List String} {n : Node} {block : Nat}
  (hcomputing : ∀ id (e : Emission), block < e.blocks.size → Moves waits e (computing id e))

include hcomputing

/-- Reading an input moves, if computing does. -/
theorem moves_readWith (param : String) (e : Emission) (hblock : block < e.blocks.size) :
    Moves waits e (readWith ctx computing active n param e).2 := by
  unfold readWith
  have hfan := moves_reportFanIn waits e ctx n param
  split
  · exact hfan
  · exact hfan
  · next name output kind _ =>
    have hdeclared := hfan.act (.declare name kind.typeName)
    dsimp only
    split
    · exact hdeclared.trans (hcomputing _ _ (hdeclared.lt_size hblock))
    · exact hdeclared
  · exact hfan.trans (moves_reportNoValue ..)

/-- Reading inputs one after the other moves. -/
theorem moves_readAllWith (params : List String) (e : Emission) (hblock : block < e.blocks.size) :
    Moves waits e (readAllWith ctx computing active n params e).2 := by
  induction params generalizing e with
  | nil => exact .refl
  | cons param rest ih =>
      have hfirst : Moves waits e (readWith ctx computing active n param e).2 :=
        moves_readWith hcomputing param e hblock
      exact hfirst.trans (ih _ (hfirst.lt_size hblock))

/-- An assignment moves: its operands are read, its name is declared and its line is
    written. -/
theorem moves_assignWith (e : Emission) (hblock : block < e.blocks.size) :
    Moves waits e (assignWith ctx computing active n block e) := by
  unfold assignWith
  split
  · exact .refl
  · split
    · next kind name type _ _ =>
      have hread : Moves waits e (readAllWith ctx computing active n kind.slots e).2 :=
        moves_readAllWith hcomputing kind.slots e hblock
      have hdeclared := hread.act (.declare name type)
      exact hdeclared.act (.write (hdeclared.lt_size hblock) rfl)
    · exact .refl

end Reading

/-- **Computing a node moves**, and never makes a routine wait. By recursion on the
    nodes that are not active yet. -/
theorem moves_compute (waits : Prop) (ctx : Context) (block : Nat) (active : List String)
    (id : String) (e : Emission) (hblock : block < e.blocks.size) :
    Moves waits e (compute ctx block active id e) := by
  unfold compute
  split
  · exact .refl
  · split
    · exact Act.moves (.report ..)
    · next idle =>
      split
      · exact .refl
      · next n found =>
        have smaller : (unlisted ctx.index.nodeIds (id :: active)).length
            < (unlisted ctx.index.nodeIds active).length :=
          length_unlisted_lt (fun _ h => List.mem_cons_of_mem _ h)
            (Index.mem_nodeIds_of_node? found) idle (List.mem_cons_self ..)
        have hrecursion : ∀ id' (e : Emission), block < e.blocks.size →
            Moves waits e (compute ctx block (id :: active) id' e) :=
          fun id' e he => moves_compute waits ctx block (id :: active) id' e he
        have hfirst := moves_foldl (fun e id' => hrecursion id' e) (ctx.pureDependencies n) e hblock
        refine hfirst.trans (.trans ?_ (moves_settle ..))
        exact moves_assignWith hrecursion _ (hfirst.lt_size hblock)
termination_by (unlisted ctx.index.nodeIds active).length

theorem moves_computeOnce (waits : Prop) (ctx : Context) (block : Nat) (id : String)
    (e : Emission) (hblock : block < e.blocks.size) :
    Moves waits e (computeOnce ctx block id e) :=
  (moves_compute waits ctx block [] id e hblock).act (.refresh [])

theorem moves_readInput (waits : Prop) (ctx : Context) (n : Node) (param : String) (block : Nat)
    (e : Emission) (hblock : block < e.blocks.size) :
    Moves waits e (readInput ctx n param block e).2 :=
  moves_readWith (moves_computeOnce waits ctx block) param e hblock

theorem moves_readInputs (waits : Prop) (ctx : Context) (n : Node) (params : List String)
    (block : Nat) (e : Emission) (hblock : block < e.blocks.size) :
    Moves waits e (readInputs ctx n params block e).2 :=
  moves_readAllWith (moves_computeOnce waits ctx block) params e hblock

theorem moves_assignPure (waits : Prop) (ctx : Context) (n : Node) (block : Nat) (e : Emission)
    (hblock : block < e.blocks.size) : Moves waits e (assignPure ctx n block e) :=
  moves_assignWith (moves_computeOnce waits ctx block) e hblock

/-! ## Visiting -/

section Visiting

variable {waits : Prop} {ctx : Context} {n : Node} {d : Definition} {block : Nat} {e : Emission}

/-- A block is reserved, and is there from then on. -/
theorem moves_reserve (waits : Prop) (place : Place) {e : Emission} (hblock : block < e.blocks.size) :
    Moves waits e (e.reserve place block).2
      ∧ (e.reserve place block).1 < (e.reserve place block).2.blocks.size := by
  refine ⟨Act.moves (.reserve place hblock), ?_⟩
  show e.blocks.size < (e.blocks.reserve place block).2.size
  rw [size_reserve]
  exact Nat.lt_succ_self _

/-- Going on by several connections reserves a block for each. -/
theorem moves_spread (connections : List Connection) (hblock : block < e.blocks.size) :
    Moves waits e (spread block connections e).2 := by
  induction connections generalizing e with
  | nil => exact .refl
  | cons c rest ih =>
      have hfirst : Moves waits e (e.reserve .inline block).2 := (moves_reserve waits .inline hblock).1
      exact hfirst.trans (ih (hfirst.lt_size hblock))

theorem moves_goOn (connections : List Connection) (hblock : block < e.blocks.size) :
    Moves waits e (goOn block connections e).2 := by
  unfold goOn
  split
  · exact .refl
  · exact moves_spread _ hblock

theorem moves_goOnBy (output : Option Param) (hblock : block < e.blocks.size) :
    Moves waits e (goOnBy ctx n output block e).2 := by
  cases output with
  | none => exact .refl
  | some p => exact moves_goOn _ hblock

/-- Each task is a name, a line that opens it, a block and a line that closes it. -/
theorem moves_startTasks (stem : String) (k : Nat) (connections : List Connection)
    (hblock : block < e.blocks.size) :
    Moves waits e (startTasks stem block k connections e).2.2 := by
  induction connections generalizing k e with
  | nil => exact .refl
  | cons c rest ih =>
      have hnamed : Moves waits e (e.newLocal (stem ++ Nat.repr k)).2 := Act.moves (.newLocal _)
      have hopened := hnamed.act
        (.write (s := .openTask (e.newLocal (stem ++ Nat.repr k)).1) (hnamed.lt_size hblock) rfl)
      have hreserved := hopened.act (.reserve .nested (hopened.lt_size hblock))
      have hclosed := hreserved.act (.write (s := .closeTask) (hreserved.lt_size hblock) rfl)
      exact hclosed.trans (ih (k + 1) (hclosed.lt_size hblock))

/-- A parallel node waits if it has branches to wait for. -/
theorem moves_visitParallel (hblock : block < e.blocks.size) :
    Moves (newBranches ctx n d e ≠ []) e (visitParallel ctx n d block e).2 := by
  rw [visitParallel]
  cases hbranches : newBranches ctx n d e with
  | nil => exact .refl
  | cons c rest =>
      have hwaits : Moves (c :: rest ≠ []) e e.setAsync := Act.moves (.setAsync (List.cons_ne_nil c rest))
      have htasks : Moves (c :: rest ≠ []) e.setAsync
          (startTasks ("task_" ++ n.numericSuffix?.getD "0" ++ "_") block 1 (c :: rest)
            e.setAsync).2.2 := moves_startTasks _ 1 (c :: rest) hblock
      have hall := hwaits.trans htasks
      exact hall.act (.emit (hall.lt_size hblock) fun _ => htasks.isAsync.1 rfl)

/-- A branch is a line, two blocks and a line, whatever is behind it. -/
theorem moves_visitBranch (condition : Operand) (hblock : block < e.blocks.size) :
    Moves waits e (visitBranch ctx n d condition block e).2 := by
  rw [visitBranch]
  dsimp only
  have hopened : Moves waits e (e.emit block (.openIf condition)) := Act.moves (.write hblock rfl)
  replace hblock := hopened.lt_size hblock
  generalize e.emit block (.openIf condition) = opened at hopened hblock ⊢
  obtain ⟨hyes, hyesBlock⟩ := moves_reserve waits .nested hblock
  replace hblock := hyes.lt_size hblock
  generalize opened.reserve .nested block = yes at hyes hyesBlock hblock ⊢
  obtain ⟨hno, hnoBlock⟩ := moves_reserve waits .otherwise hblock
  replace hblock := hno.lt_size hblock
  generalize yes.2.reserve .otherwise block = no at hno hnoBlock hblock ⊢
  have hclosed : Moves waits no.2 (no.2.emit block .close) := Act.moves (.write hblock rfl)
  have hfirst : Moves waits _ (goOnBy ctx n d.execOutputs[0]? yes.1 _).2 :=
    moves_goOnBy d.execOutputs[0]? (hclosed.lt_size (hno.lt_size hyesBlock))
  have hsecond : Moves waits _ (goOnBy ctx n d.execOutputs[1]? no.1 _).2 :=
    moves_goOnBy d.execOutputs[1]? (hfirst.lt_size (hclosed.lt_size hnoBlock))
  exact hopened.trans (hyes.trans (hno.trans (hclosed.trans (hfirst.trans hsecond))))

/-- A loop is a name, a line, a block and a line. -/
theorem moves_visitLoop (count : Operand) (hblock : block < e.blocks.size) :
    Moves waits e (visitLoop ctx n d count block e).2 := by
  rw [visitLoop]
  dsimp only
  have hdeclared : Moves waits e (e.declare (loopIndex ctx n) "number") :=
    Act.moves (.declare ..)
  have hopened := hdeclared.act
    (.write (s := .openFor (loopIndex ctx n) count) (hdeclared.lt_size hblock) rfl)
  replace hblock := hopened.lt_size hblock
  generalize (e.declare (loopIndex ctx n) "number").emit block _ = opened at hopened hblock ⊢
  obtain ⟨hbody, hbodyBlock⟩ := moves_reserve waits .nested hblock
  replace hblock := hbody.lt_size hblock
  generalize opened.reserve .nested block = body at hbody hbodyBlock hblock ⊢
  have hclosed : Moves waits body.2 (body.2.emit block .close) := Act.moves (.write hblock rfl)
  have hfirst : Moves waits _ (goOnBy ctx n d.execOutputs[0]? body.1 _).2 :=
    moves_goOnBy d.execOutputs[0]? (hclosed.lt_size hbodyBlock)
  have hsecond : Moves waits _ (goOnBy ctx n d.execOutputs[1]? block _).2 :=
    moves_goOnBy d.execOutputs[1]? (hfirst.lt_size (hclosed.lt_size hblock))
  exact hopened.trans (hbody.trans (hclosed.trans (hfirst.trans hsecond)))

/-- Each case is a line, two blocks in one another, and two lines. By induction on
    the outputs. -/
theorem moves_writeCases (outputs : List Param) (hblock : block < e.blocks.size) :
    Moves waits e (writeCases ctx n block outputs e).2 := by
  induction outputs generalizing e with
  | nil => exact .refl
  | cons p rest ih =>
      rw [writeCases]
      cases ctx.index.outgoing ⟨n.id, p.id⟩ with
      | nil => exact ih hblock
      | cons c more =>
          dsimp only
          have hopened : Moves waits e (e.emit block (.openCase (.ofOutput p.id))) :=
            Act.moves (.write hblock rfl)
          replace hblock := hopened.lt_size hblock
          generalize e.emit block (.openCase (.ofOutput p.id)) = opened at hopened hblock ⊢
          obtain ⟨hcase, hcaseBlock⟩ := moves_reserve waits .nested hblock
          replace hblock := hcase.lt_size hblock
          generalize opened.reserve .nested block = case at hcase hcaseBlock hblock ⊢
          obtain ⟨hbody, hbodyBlock⟩ := moves_reserve waits .inline hcaseBlock
          replace hblock := hbody.lt_size hblock
          replace hcaseBlock := hbody.lt_size hcaseBlock
          generalize case.2.reserve .inline case.1 = body at hbody hbodyBlock hblock hcaseBlock ⊢
          have hleft : Moves waits body.2 (body.2.emit case.1 .leaveCase) :=
            Act.moves (.write hcaseBlock rfl)
          have hclosed := hleft.act (.write (s := .close) (hleft.lt_size hblock) rfl)
          have hfirst : Moves waits _ (goOn body.1 (c :: more) _).2 :=
            moves_goOn (c :: more) (hclosed.lt_size hbodyBlock)
          have hothers := ih (hfirst.lt_size (hclosed.lt_size hblock))
          exact hopened.trans (hcase.trans (hbody.trans (hclosed.trans (hfirst.trans hothers))))

/-- A switch is a line, its cases and a line. -/
theorem moves_visitSwitch (value : Operand) (hblock : block < e.blocks.size) :
    Moves waits e (visitSwitch ctx n d value block e).2 := by
  rw [visitSwitch]
  dsimp only
  have hopened : Moves waits e (e.emit block (.openSwitch value)) := Act.moves (.write hblock rfl)
  replace hblock := hopened.lt_size hblock
  generalize e.emit block (.openSwitch value) = opened at hopened hblock ⊢
  obtain ⟨hcases, hcasesBlock⟩ := moves_reserve waits .nested hblock
  have hclosed : Moves waits _ ((opened.reserve .nested block).2.emit block .close) :=
    Act.moves (.write (hcases.lt_size hblock) rfl)
  refine hopened.trans (hcases.trans (hclosed.trans ?_))
  exact moves_writeCases d.execOutputs (hclosed.lt_size hcasesBlock)

/-- The statements of a node, once its inputs have been read: only a delay and
    a parallel node with branches make the routine wait. -/
theorem moves_visitKind (kind : NodeKind) (operand : String → Operand)
    (hblock : block < e.blocks.size) :
    Moves (kind = .delay ∨ kind = .parallel ∧ newBranches ctx n d e ≠ []) e
      (visitKind ctx n d kind operand block e).2 := by
  -- a line, then on by all outputs that carry control
  have hfollow : ∀ {waits : Prop} {e : Emission} (s : Statement), block < e.blocks.size →
      (s.awaits = true → e.routine.isAsync = true) →
      Moves waits e (follow ctx n d block (e.emit block s)).2 := by
    intro waits e s hblock hwait
    have hline : Moves waits e (e.emit block s) := Act.moves (.emit hblock hwait)
    exact hline.trans (moves_goOn _ (hline.lt_size hblock))
  cases kind with
  | functionStart | lifecycle => exact moves_goOn _ hblock
  | functionParameter | finish => exact .refl
  | functionReturn => exact Act.moves (.noteReturn n.id)
  | print | debugLog | setVariable | debugBreak | debugWatch =>
      exact hfollow _ hblock fun hwait => absurd hwait Bool.false_ne_true
  | delay =>
      have hasync : Moves (NodeKind.delay = .delay ∨ NodeKind.delay = .parallel
          ∧ newBranches ctx n d e ≠ []) e e.setAsync := Act.moves (.setAsync (Or.inl rfl))
      exact hasync.trans (hfollow _ (hasync.lt_size hblock) fun _ => rfl)
  | pure k =>
      have hassign := moves_assignPure (NodeKind.pure k = .delay ∨ NodeKind.pure k = .parallel
        ∧ newBranches ctx n d e ≠ []) ctx n block e hblock
      exact hassign.trans (moves_goOn _ (hassign.lt_size hblock))
  | sequence => exact moves_spread _ hblock
  | parallel => exact (moves_visitParallel hblock).imp fun h => Or.inr ⟨rfl, h⟩
  | branch => exact moves_visitBranch _ hblock
  | forLoop => exact moves_visitLoop _ hblock
  | switch => exact moves_visitSwitch _ hblock

/-- A delay and a parallel node with branches do make the routine wait, and
    write a line that does. -/
theorem waits_visitKind {kind : NodeKind} (operand : String → Operand)
    (hblock : block < e.blocks.size)
    (hwaits : kind = .delay ∨ kind = .parallel ∧ newBranches ctx n d e ≠ []) :
    (visitKind ctx n d kind operand block e).2.Waits := by
  rcases hwaits with rfl | ⟨rfl, hbranches⟩
  · have hline : (e.setAsync.emit block (.delay (operand "duration"))).Waits :=
      ⟨rfl, _, (has_line_iff hblock).2 (Or.inr rfl), rfl⟩
    have hfollow : Moves True (e.setAsync.emit block (.delay (operand "duration")))
        (follow ctx n d block (e.setAsync.emit block (.delay (operand "duration")))).2 :=
      moves_goOn _ (Nat.lt_of_lt_of_le hblock (keeps_line ..).size)
    exact hline.moves hfollow
  · rw [visitKind, visitParallel]
    cases hnew : newBranches ctx n d e with
    | nil => exact absurd hnew hbranches
    | cons c rest =>
        have htasks : Moves True e.setAsync
            (startTasks ("task_" ++ n.numericSuffix?.getD "0" ++ "_") block 1 (c :: rest)
              e.setAsync).2.2 := moves_startTasks _ 1 (c :: rest) hblock
        exact ⟨htasks.isAsync.1 rfl, _, (has_line_iff (htasks.lt_size hblock)).2 (Or.inr rfl), rfl⟩

/-- The comment ahead of a node is one act at most. -/
theorem moves_announce (kind : NodeKind) (hblock : block < e.blocks.size) :
    Moves waits e (e.announce ctx n d kind block) := by
  rw [Emission.announce]
  split
  · exact Act.moves (.write hblock rfl)
  · exact .refl

end Visiting

/-- A visit makes the routine wait: the node is a delay, or it is a parallel
    node from which control leads to a node that is not on the path. -/
def Context.Suspends (ctx : Context) (n : Node) (path : Trail) : Prop :=
  ctx.catalog.kind? n = some .delay
    ∨ ctx.catalog.kind? n = some .parallel ∧ ∃ d, ctx.definition? n = some d
      ∧ ∃ c ∈ ctx.leavingBy n d.execOutputs, c.target.node ∉ path.latest

/-- A branch is new if a connection leads to a node that is not on the path. -/
theorem newBranches_ne_nil_iff {ctx : Context} {n : Node} {d : Definition} {e : Emission} :
    newBranches ctx n d e ≠ []
      ↔ ∃ c ∈ ctx.leavingBy n d.execOutputs, c.target.node ∉ e.path.latest := by
  have hnew : ∀ c : Connection,
      (!e.path.contains c.target.node) = true ↔ c.target.node ∉ e.path.latest := by
    intro c
    rw [Bool.not_eq_true', Bool.eq_false_iff, ne_eq, VisitedPath.contains_iff_mem]
  rw [newBranches, ne_eq, List.filter_eq_nil_iff]
  push Not
  exact exists_congr fun c => and_congr_right fun _ => hnew c

/-- **A visit moves**, and makes the routine wait only as its node does. -/
theorem moves_visit (ctx : Context) (n : Node) {block : Nat} {e : Emission}
    (hblock : block < e.blocks.size) :
    Moves (ctx.Suspends n e.path) e (visit ctx n block e).2 := by
  rw [visit]
  cases hd : ctx.definition? n with
  | none =>
      have hreport : Moves (ctx.Suspends n e.path) e
          (e.report .reference n.id s!"definition '{n.definitionId}' is not in the catalog") :=
        Act.moves (.report ..)
      exact hreport.act (.write hblock rfl)
  | some d =>
      dsimp only
      cases hkind : NodeKind.ofDefinition? d.id with
      | none =>
          have hreport : Moves (ctx.Suspends n e.path) e
              (e.report .unsupportedKind n.id s!"no emitter for node type '{d.id}'") :=
            Act.moves (.report ..)
          have hcomment := hreport.act
            (.write (s := .comment s!"Unsupported node type: {d.id}") hblock rfl)
          exact hcomment.trans (moves_goOn _ (hcomment.lt_size hblock))
      | some kind =>
          dsimp only
          have hannounced : Moves (ctx.Suspends n e.path) e (e.announce ctx n d kind block) :=
            moves_announce kind hblock
          have hread := hannounced.trans (moves_readInputs _ ctx n (kind.slots ctx n) block _
            (hannounced.lt_size hblock))
          refine hread.trans ((moves_visitKind kind _ (hread.lt_size hblock)).imp ?_)
          have hof : ctx.catalog.kind? n = some kind := by
            rw [Catalog.kind?, ← Context.definition?, hd]
            exact hkind
          rintro (rfl | ⟨rfl, hbranches⟩)
          · exact Or.inl hof
          · -- a parallel node reads nothing
            have hpath : (readInputs ctx n (NodeKind.parallel.slots ctx n) block
                (e.announce ctx n d .parallel block)).2.path = e.path := path_announce ..
            rw [newBranches_ne_nil_iff, hpath] at hbranches
            exact Or.inr ⟨hof, d, hd, hbranches⟩

/-- A visit of a node that has a kind. -/
theorem visit_of_kind {ctx : Context} {n : Node} {d : Definition} {kind : NodeKind}
    (hd : ctx.definition? n = some d) (hkind : NodeKind.ofDefinition? d.id = some kind)
    (block : Nat) (e : Emission) :
    visit ctx n block e
      = visitKind ctx n d kind
          (operandOf (readInputs ctx n (kind.slots ctx n) block (e.announce ctx n d kind block)).1)
          block (readInputs ctx n (kind.slots ctx n) block (e.announce ctx n d kind block)).2 := by
  rw [visit, hd]
  dsimp only
  rw [hkind]

/-- **A visit that has to makes the routine wait.** -/
theorem waits_visit {ctx : Context} {n : Node} {block : Nat} {e : Emission}
    (hblock : block < e.blocks.size) (h : ctx.Suspends n e.path) :
    (visit ctx n block e).2.Waits := by
  have hannounced : ∀ (d : Definition) (kind : NodeKind),
      Moves False e (e.announce ctx n d kind block) := fun _ kind => moves_announce kind hblock
  rcases h with hdelay | ⟨hparallel, d', hd', hnew⟩
  · obtain ⟨d, hd, hkind⟩ := exists_definition_of_kind? hdelay
    have hread := (hannounced d .delay).trans (moves_readInputs False ctx n
      (NodeKind.delay.slots ctx n) block _ ((hannounced d .delay).lt_size hblock))
    rw [visit_of_kind hd hkind]
    exact waits_visitKind _ (hread.lt_size hblock) (Or.inl rfl)
  · obtain ⟨d, hd, hkind⟩ := exists_definition_of_kind? hparallel
    obtain rfl := Option.some.inj (hd.symm.trans hd')
    rw [visit_of_kind hd hkind]
    refine waits_visitKind _ ((hannounced d .parallel).lt_size hblock) (Or.inr ⟨rfl, ?_⟩)
    -- a parallel node reads nothing
    rw [newBranches_ne_nil_iff]
    show ∃ c ∈ _, _ ∉ (e.announce ctx n d .parallel block).path.latest
    rw [path_announce]
    exact hnew

/-- **A visit makes the routine wait exactly if its node does.** -/
theorem isAsync_visit_iff (ctx : Context) (n : Node) {block : Nat} {e : Emission}
    (hblock : block < e.blocks.size) :
    (visit ctx n block e).2.routine.isAsync = true
      ↔ e.routine.isAsync = true ∨ ctx.Suspends n e.path := by
  have hmoves := (moves_visit ctx n hblock).isAsync
  exact ⟨hmoves.2, fun h => h.elim hmoves.1 fun hsuspends => (waits_visit hblock hsuspends).1⟩

/-! ## Walking -/

/-- The blocks of the exits of a visit are there. -/
theorem opens_exits (ctx : Context) (n : Node) {block : Nat} {e : Emission}
    (h : e.Opens ctx block) :
    ∀ x ∈ (visit ctx n block e).1, (visit ctx n block e).2.Opens ctx x.block := by
  cases hof : ctx.catalog.kind? n with
  | none => exact (goesOn_visit_of_unknown hof h).exits
  | some kind =>
      obtain ⟨d, hd, hkind⟩ := exists_definition_of_kind? hof
      have hannounced : Moves False e (e.announce ctx n d kind block) := moves_announce _ h.within
      have hread := hannounced.trans (moves_readInputs False ctx n (kind.slots ctx n) block _
        (hannounced.lt_size h.within))
      rw [visit_of_kind hd hkind]
      by_cases hpure : ∃ k, kind = .pure k
      · obtain ⟨k, rfl⟩ := hpure
        have hassign := hread.trans (moves_assignPure False ctx n block _ (hread.lt_size h.within))
        exact (goesOn_goOn (ctx.index.execLeaving n d) (h.keeps hassign.keeps)).exits
      · refine (goesOn_visitKind (not_exists.1 hpure) _ ?_).exits
        exact (h.keeps hread.keeps).keeps (keeps_lines ..)

/-- The blocks of all steps that are left are there. -/
def OpensAll (ctx : Context) (stack : List Step) (e : Emission) : Prop :=
  ∀ step ∈ stack, e.Opens ctx step.block

section Walking

variable {ctx : Context} {step : Step} {rest : List Step} {e : Emission} {n : Node}

theorem OpensAll.tail (h : OpensAll ctx (step :: rest) e) : OpensAll ctx rest e :=
  fun step' hstep' => h step' (List.mem_cons_of_mem _ hstep')

theorem OpensAll.within (h : OpensAll ctx (step :: rest) e) :
    step.block < (e.onPath (step.path.extend step.node)).blocks.size :=
  (h step (List.mem_cons_self ..)).within

/-- **A visit leaves all blocks there.** -/
theorem OpensAll.visited (h : OpensAll ctx (step :: rest) e) (n : Node) :
    OpensAll ctx ((step.visited ctx n e).steps ++ rest) (step.visited ctx n e).2 := by
  intro step' hstep'
  rcases List.mem_append.1 hstep' with hexit | hrest
  · obtain ⟨x, hx, rfl⟩ := List.mem_map.1 hexit
    have hopen : (e.onPath (step.path.extend step.node)).Opens ctx step.block :=
      h step (List.mem_cons_self ..)
    exact opens_exits ctx n hopen x hx
  · exact (h.tail step' hrest).keeps (moves_visit ctx n h.within).keeps

end Walking

/-- **A walk moves.** -/
theorem moves_walk {ctx : Context} {stack : List Step} {e : Emission}
    (h : OpensAll ctx stack e) : Moves True e (walk ctx stack e) := by
  fun_induction walk ctx stack e with
  | case1 e => exact .refl
  | case2 e step rest hdone ih => exact ih h.tail
  | case3 e step rest hnew hnone ih => exact ih h.tail
  | case4 e step rest hnew n hn visited ih =>
      have hgo : Moves True e (e.onPath (step.path.extend step.node)) := Act.moves (.goTo _)
      have hvisit := (moves_visit ctx n h.within).imp fun _ => trivial
      exact (hgo.trans hvisit).trans (ih (h.visited n))

/-- **A walk makes the routine wait exactly if one of its visits does.** -/
theorem isAsync_walk_iff {ctx : Context} {stack : List Step} {e : Emission}
    (h : OpensAll ctx stack e) :
    (walk ctx stack e).routine.isAsync = true
      ↔ e.routine.isAsync = true
        ∨ ∃ v ∈ visits ctx stack e, ctx.Suspends v.2 (v.1.path.extend v.1.node) := by
  fun_induction visits ctx stack e with
  | case1 e => simp [walk_nil]
  | case2 e step rest hdone ih =>
      rw [walk_cons_of_done (Or.inl hdone)]
      exact ih h.tail
  | case3 e step rest hnew hnone ih =>
      rw [walk_cons_of_done (Or.inr hnone)]
      exact ih h.tail
  | case4 e step rest hnew n hn visited ih =>
      rw [walk_cons_of_new hnew hn]
      refine (ih (h.visited n)).trans ?_
      have hvisit := isAsync_visit_iff ctx n h.within
      simp only [List.mem_cons, exists_eq_or_imp, ← or_assoc]
      exact or_congr_left hvisit

end Blueprints
