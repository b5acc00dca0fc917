import Blueprints.Program.Basic
import Blueprints.Proofs.Emit.Filling

/-! # The walk refines the descent

    The walk keeps a stack of steps and fills blocks out of order; the
    descent (`descend`) is plain recursion.  Both give the same routine: the
    same lines, declarations, diagnostics and return node
    (`writeRoutine_refines_descent`).

    The heart is one step of the walk (`walk_step`): all that is written
    until the step and what it leads to are off the stack is, read as text,
    what the descent tells of its node, at the end of the step's block.  The
    induction is on the number of nodes that the path of the step lacks. -/

namespace Blueprints

open Arena (ahead ahead_self ahead_nil ahead_ahead)

/-! ## Openings -/

theorem Arena.finished_lines_new (ss : List Statement) :
    (Arena.new.lines Arena.root ss).finished Arena.root = ss.map Passage.line := by
  rw [finished, passages_lines (by simp [Arena.root]), passages_eq, body_new, ahead_self]
  exact List.append_nil _

/-- An opening is what a visit writes before it goes on. -/
theorem openingOfKind_eq (ctx : Context) (n : Node) (d : Definition) (kind : NodeKind) (b : Nat)
    (e : Emission) :
    ∃ ss, (ownValue ctx n kind b
          (readInputs ctx n (kind.slots ctx n) b (e.announce ctx n d kind b)).2).blocks
        = e.blocks.lines b ss
      ∧ openingOfKind ctx n d kind e.detached
        = ⟨ss.map Passage.line,
            operandOf (readInputs ctx n (kind.slots ctx n) b (e.announce ctx n d kind b)).1,
            (ownValue ctx n kind b
              (readInputs ctx n (kind.slots ctx n) b (e.announce ctx n d kind b)).2).detached⟩ := by
  obtain ⟨ss₁, r₁, h₁⟩ := uniform_announce ctx n d kind e
  obtain ⟨v, ss₂, r₂, h₂⟩ := uniform_readInputs ctx n (kind.slots ctx n) r₁
  obtain ⟨ss₃, r₃, h₃⟩ := uniform_ownValue ctx n kind r₂
  have hannounce : e.announce ctx n d kind b = r₁.withBlocks (e.blocks.lines b ss₁) :=
    h₁ b e.blocks
  have hannounce' : e.detached.detached.announce ctx n d kind Arena.root
      = r₁.withBlocks (Arena.new.lines Arena.root ss₁) := h₁ Arena.root .new
  have hread := h₂ b (e.blocks.lines b ss₁)
  have hread' := h₂ Arena.root (Arena.new.lines Arena.root ss₁)
  have hown := h₃ b ((e.blocks.lines b ss₁).lines b ss₂)
  have hown' := h₃ Arena.root ((Arena.new.lines Arena.root ss₁).lines Arena.root ss₂)
  dsimp only at hread hread' hown hown'
  refine ⟨ss₁ ++ ss₂ ++ ss₃, ?_, ?_⟩
  · rw [hannounce, hread, hown, Arena.lines_append, Arena.lines_append]
    rfl
  · rw [openingOfKind, hannounce, hannounce', hread, hread', hown]
    dsimp only
    rw [hown', ← Arena.finished_lines_new, Arena.lines_append, Arena.lines_append]
    rfl

/-! ## Visits -/

section Visiting

variable {go : String → Emission → Told} {b : Nat} {e : Emission}

/-- What is written ahead of a visit stands ahead of what is told of it. -/
theorem LaysOut.afterLine (hb : b < e.blocks.size) {s : Statement} {v : Visited} {t : Told}
    (h : LaysOut go b (e.emit b s) v t) : LaysOut go b e v (.line s :: t.1, t.2) := by
  obtain ⟨told, hlays, rfl⟩ := h
  exact ⟨_, hlays.line hb, rfl⟩

/-- So do several lines. -/
theorem LaysOut.afterLines (hb : b < e.blocks.size) {e' : Emission} {ss : List Statement}
    (hblocks : e'.blocks = e.blocks.lines b ss) {v : Visited} {t : Told}
    (h : LaysOut go b e' v t) : LaysOut go b e v (ss.map Passage.line ++ t.1, t.2) := by
  induction ss generalizing e with
  | nil =>
      obtain ⟨told, hlays, rfl⟩ := h
      rw [hblocks] at hlays
      exact ⟨told, hlays, rfl⟩
  | cons s ss ih =>
      have hrest := ih (e := e.emit b s) (by simpa using hb) hblocks
      exact hrest.afterLine hb

theorem laysOut_none (closed : e.blocks.Closed) : LaysOut go b e ([], e) ([], e.detached) :=
  ⟨_, Lays.none closed, rfl⟩

/-- **To go on lays out the nodes behind the connections**, in turn. -/
theorem laysOut_goOn (conns : List Connection) (closed : e.blocks.Closed)
    (hb : b < e.blocks.size) :
    LaysOut go b e (goOn b conns e) (inTurn go (targets conns) e.detached) :=
  ⟨_, lays_goOn go conns closed hb, by rw [detached_goOn]⟩

/-- A statement is told, and then what follows it. -/
theorem laysOut_tellThen (s : Statement) (conns : List Connection) (closed : e.blocks.Closed)
    (hb : b < e.blocks.size) :
    LaysOut go b e (goOn b conns (e.emit b s)) (tellThen go s (targets conns) e.detached) := by
  have h : LaysOut go b (e.emit b s) _ _ :=
    laysOut_goOn conns (closed.line b s) (by simpa using hb)
  exact h.afterLine hb

theorem inTurn_targets_cons (c : Connection) (rest : List Connection) (s : Emission) :
    inTurn go (targets (c :: rest)) s
      = ((go c.target.node s).1 ++ (inTurn go (targets rest) (go c.target.node s).2).1,
        (inTurn go (targets rest) (go c.target.node s).2).2) := rfl

/-- What is told of connections does not change by leaving out those that
    lead to nodes of which nothing is told. -/
theorem inTurn_filter {conns : List Connection} {keep : Connection → Bool}
    (hskip : ∀ c, keep c = false → ∀ s, go c.target.node s = ([], s)) (s : Emission) :
    inTurn go (targets (conns.filter keep)) s = inTurn go (targets conns) s := by
  induction conns generalizing s with
  | nil => rfl
  | cons c rest ih =>
      cases hkeep : keep c with
      | true =>
          rw [List.filter_cons_of_pos hkeep, inTurn_targets_cons, inTurn_targets_cons, ih]
      | false =>
          rw [List.filter_cons_of_neg (by rw [hkeep]; exact Bool.false_ne_true), ih,
            inTurn_targets_cons, hskip c hkeep]
          rfl

/-- **A visit lays out what the descent tells of a kind of node**, if nothing
    is told of the nodes that are on the path. -/
theorem laysOut_visitKind (ctx : Context) (n : Node) (d : Definition) (kind : NodeKind)
    (operand : String → Operand) (closed : (ownValue ctx n kind b e).blocks.Closed)
    (hb : b < (ownValue ctx n kind b e).blocks.size)
    (hskip : ∀ id, (ownValue ctx n kind b e).path.contains id = true →
      ∀ s, go id s = ([], s)) :
    LaysOut go b (ownValue ctx n kind b e) (visitKind ctx n d kind operand b e)
      (tellKind ctx go n d kind operand (ownValue ctx n kind b e).detached) := by
  cases kind with
  | functionStart | lifecycle | pure => exact laysOut_goOn _ closed hb
  | functionParameter | finish => exact laysOut_none closed
  | functionReturn => exact ⟨_, Lays.none closed, rfl⟩
  | print | debugLog | setVariable | debugBreak | debugWatch =>
      exact laysOut_tellThen _ _ closed hb
  | delay => exact laysOut_tellThen (e := e.setAsync) _ _ closed hb
  | sequence =>
      refine ⟨_, lays_spread go _ closed hb, ?_⟩
      show inTurn go _ (spread b (newBranches ctx n d e) e).2.detached = _
      rw [detached_spread]
      refine inTurn_filter (fun c hc => hskip c.target.node ?_) e.detached
      show e.path.contains c.target.node = true
      simpa using hc
  | parallel => exact laysOut_visitParallel ctx n d closed hb
  | branch => exact laysOut_visitBranch ctx n d _ closed hb
  | forLoop => exact laysOut_visitLoop ctx n d _ closed hb
  | switch => exact laysOut_visitSwitch ctx n d _ closed hb

/-- Of a visit, only its reads and its own value add to the path. -/
theorem path_visitKind (ctx : Context) (n : Node) (d : Definition) (kind : NodeKind)
    (operand : String → Operand) (b : Nat) (e : Emission) :
    (visitKind ctx n d kind operand b e).2.path = (ownValue ctx n kind b e).path := by
  cases kind with
  | _ => simp [visitKind, ownValue]

/-- A visit goes on where its opening does. -/
theorem path_visit (ctx : Context) (n : Node) (b : Nat) (e : Emission) :
    (visit ctx n b e).2.path = (opening ctx n e.detached).emission.path := by
  rw [visit, opening]
  cases ctx.definition? n with
  | none => rfl
  | some d =>
      dsimp only
      cases NodeKind.ofDefinition? d.id with
      | none => exact path_goOn ..
      | some kind =>
          obtain ⟨ss, -, hopening⟩ := openingOfKind_eq ctx n d kind b e
          dsimp only
          rw [hopening, path_visitKind]
          rfl

/-- **A visit lays out what the descent tells of its node**, if nothing is
    told of the nodes that are on the path. -/
theorem laysOut_visit (ctx : Context) (n : Node) (closed : e.blocks.Closed)
    (hb : b < e.blocks.size)
    (hskip : ∀ id, (opening ctx n e.detached).emission.path.contains id = true →
      ∀ s, go id s = ([], s)) :
    LaysOut go b e (visit ctx n b e)
      ((opening ctx n e.detached).passages
          ++ (tellNode ctx go n (opening ctx n e.detached).operand
            (opening ctx n e.detached).emission).1,
        (tellNode ctx go n (opening ctx n e.detached).operand
          (opening ctx n e.detached).emission).2) := by
  revert hskip
  rw [visit, opening, tellNode]
  cases ctx.definition? n with
  | none =>
      intro _
      exact (laysOut_none (e := (e.report _ _ _).emit b _) (closed.line b _)).afterLine hb
  | some d =>
      dsimp only
      cases NodeKind.ofDefinition? d.id with
      | none =>
          intro _
          exact laysOut_tellThen (e := e.report _ _ _) _ _ closed hb
      | some kind =>
          obtain ⟨ss, hblocks, hopening⟩ := openingOfKind_eq ctx n d kind b e
          dsimp only
          rw [hopening]
          intro hskip
          refine LaysOut.afterLines hb hblocks (laysOut_visitKind ctx n d kind _ ?_ ?_ hskip)
          · rw [hblocks]
            exact closed.lines b ss
          · rw [hblocks, Arena.size_lines]
            exact hb

end Visiting

/-! ## The walk -/

section Walking

variable {ctx : Context}

theorem walk_nil (e : Emission) : walk ctx [] e = e := by
  rw [walk.eq_def]

/-- A step to a node that is done or missing is dropped. -/
theorem walk_cons_of_done {id : String} {path : Trail}
    (hdone : path.contains id = true ∨ ctx.index.node? id = none) (b : Nat) (rest : List Step)
    (e : Emission) : walk ctx (⟨id, path, b⟩ :: rest) e = walk ctx rest e := by
  rw [walk]
  split
  · rfl
  · next hnew =>
    split
    · rfl
    · next n hn =>
      rcases hdone with h | h
      · exact absurd h hnew
      · exact absurd (h.symm.trans hn) (by simp)

/-- **A step to a new node** is replaced by the steps to its exits. -/
theorem walk_cons_of_new {id : String} {path : Trail} {n : Node}
    (hnew : ¬path.contains id = true) (hn : ctx.index.node? id = some n) (b : Nat)
    (rest : List Step) (e : Emission) :
    walk ctx (⟨id, path, b⟩ :: rest) e
      = walk ctx ((visit ctx n b (e.onPath (path.extend id))).steps ++ rest)
          (visit ctx n b (e.onPath (path.extend id))).2 := by
  rw [walk, dif_neg hnew]
  split
  · next hn' => exact absurd (hn'.symm.trans hn) (by simp)
  · next n' hn' =>
    obtain rfl : n' = n := Option.some.inj (hn'.symm.trans hn)
    rfl

/-- A step of the walk is over, with all that it leads to, before the next
    one is taken. -/
theorem walk_append (steps others : List Step) (e : Emission) :
    walk ctx (steps ++ others) e = walk ctx others (walk ctx steps e) := by
  fun_induction walk ctx steps e with
  | case1 e => rfl
  | case2 step rest e hdone ih => exact (walk_cons_of_done (Or.inl hdone) ..).trans ih
  | case3 step rest e hnew hnone ih => exact (walk_cons_of_done (Or.inr hnone) ..).trans ih
  | case4 step rest e hnew n hn visited ih =>
      rw [List.append_assoc] at ih
      exact (walk_cons_of_new hnew hn ..).trans ih

/-- The descent tells nothing of a node that is done or missing. -/
theorem descend_of_done {id : String} {path : Trail}
    (hdone : path.contains id = true ∨ ctx.index.node? id = none) (e : Emission) :
    descend ctx id path e = ([], e) := by
  rw [descend]
  split
  · rfl
  · next hnew =>
    split
    · rfl
    · next n hn =>
      rcases hdone with h | h
      · exact absurd h hnew
      · exact absurd (h.symm.trans hn) (by simp)

/-- **The descent tells of a new node** what opens it and then what follows it. -/
theorem descend_of_new {id : String} {path : Trail} {n : Node}
    (hnew : ¬path.contains id = true) (hn : ctx.index.node? id = some n) (e : Emission) :
    descend ctx id path e
      = ((opening ctx n (e.onPath (path.extend id))).passages
          ++ (tellNode ctx
            (fun next => descend ctx next (opening ctx n (e.onPath (path.extend id))).emission.path)
            n (opening ctx n (e.onPath (path.extend id))).operand
            (opening ctx n (e.onPath (path.extend id))).emission).1,
        (tellNode ctx
          (fun next => descend ctx next (opening ctx n (e.onPath (path.extend id))).emission.path)
          n (opening ctx n (e.onPath (path.extend id))).operand
          (opening ctx n (e.onPath (path.extend id))).emission).2) := by
  rw [descend, dif_neg hnew]
  split
  · next hn' => exact absurd (hn'.symm.trans hn) (by simp)
  · next n' hn' =>
    obtain rfl : n' = n := Option.some.inj (hn'.symm.trans hn)
    rfl

/-- The emission has come from an arena by writing what is told at the end of
    a block. -/
structure Writes (b : Nat) (a : Arena Statement) (r : Emission) (t : Told) : Prop where
  state : r.detached = t.2
  size : a.size ≤ r.blocks.size
  closed : r.blocks.Closed
  text : ∀ tail : Tail, tail.QuietFrom a.size → ∀ id < a.size,
    r.blocks.passages tail id = a.passages (ahead tail b t.1) id

/-- Filling exits one after the other, where each of them is filled with what
    is told of it. -/
theorem walk_exits {go : String → Emission → Told} {path : Trail}
    (hgo : ∀ id b e, e.blocks.Closed → b < e.blocks.size →
      Writes b e.blocks (walk ctx [⟨id, path, b⟩] e) (go id e.detached))
    (exits : List Exit) {e : Emission} (closed : e.blocks.Closed)
    (hwithin : ∀ x ∈ exits, x.block < e.blocks.size) :
    let r := walk ctx (exits.map fun x => ⟨x.node, path, x.block⟩) e
    r.detached = (tellEach go (exits.map Exit.node) e.detached).2
      ∧ e.blocks.size ≤ r.blocks.size ∧ r.blocks.Closed
      ∧ ∀ tail : Tail, tail.QuietFrom e.blocks.size → ∀ id < e.blocks.size,
        r.blocks.passages tail id
          = e.blocks.passages (fill tail (fillings go exits e.detached)) id := by
  induction exits generalizing e with
  | nil =>
      rw [List.map_nil, walk_nil]
      exact ⟨rfl, Nat.le_refl _, closed, fun tail _ id _ => rfl⟩
  | cons x rest ih =>
      have hx := hgo x.node x.block e closed (hwithin x (List.mem_cons_self ..))
      have hsize := hx.size
      obtain ⟨hstate, hsize', hclosed, htext⟩ := ih hx.closed fun y hy =>
        Nat.lt_of_lt_of_le (hwithin y (List.mem_cons_of_mem _ hy)) hsize
      dsimp only
      rw [List.map_cons, ← List.singleton_append, walk_append]
      rw [hx.state] at hstate htext
      refine ⟨hstate, Nat.le_trans hsize hsize', hclosed, fun tail hquiet id hid => ?_⟩
      rw [htext tail (hquiet.mono hsize) id (by omega), hx.text _ ?_ id hid]
      · rfl
      · -- the blocks of the other exits exist already
        intro id' hid'
        rw [fill_of_not_mem]
        · exact hquiet id' hid'
        · rw [map_fst_fillings]
          intro hmem
          obtain ⟨y, hy, rfl⟩ := List.mem_map.1 hmem
          have := hwithin y (List.mem_cons_of_mem _ hy)
          omega

/-- A visit and the steps behind it write what the visit lays out. -/
theorem LaysOut.writes {go : String → Emission → Told} {b : Nat} {e : Emission} {v : Visited}
    {t : Told} (h : LaysOut go b e v t)
    (hgo : ∀ id b e, e.blocks.Closed → b < e.blocks.size →
      Writes b e.blocks (walk ctx [⟨id, v.2.path, b⟩] e) (go id e.detached)) :
    Writes b e.blocks (walk ctx v.steps v.2) t := by
  obtain ⟨told, hlays, rfl⟩ := h
  obtain ⟨hstate, hsize, hclosed, htext⟩ := walk_exits hgo v.1 hlays.closed hlays.within
  refine ⟨hstate.trans (hlays.state _).symm, Nat.le_trans hlays.size hsize, hclosed, ?_⟩
  intro tail hquiet id hid
  exact (htext tail (hquiet.mono hlays.size) id (Nat.lt_of_lt_of_le hid hlays.size)).trans
    (hlays.text _ tail hquiet id hid)

/-- **One step of the walk**, with all that it leads to, writes what the
    descent tells of its node. -/
theorem walk_step (id : String) (path : Trail) (b : Nat) (e : Emission)
    (closed : e.blocks.Closed) (hb : b < e.blocks.size) :
    Writes b e.blocks (walk ctx [⟨id, path, b⟩] e) (descend ctx id path e.detached) := by
  by_cases hdone : path.contains id = true ∨ ctx.index.node? id = none
  · rw [walk_cons_of_done hdone, descend_of_done hdone, walk_nil]
    exact ⟨rfl, Nat.le_refl _, closed, fun tail _ id _ => by rw [ahead_nil]⟩
  · obtain ⟨hnew, hnode⟩ := not_or.1 hdone
    obtain ⟨n, hn⟩ := Option.ne_none_iff_exists'.1 hnode
    have hlt : ctx.index.ahead (opening ctx n (e.detached.onPath (path.extend id))).emission.path
        < ctx.index.ahead path :=
      Index.ahead_lt hn hnew (opening_within ctx n (e.detached.onPath (path.extend id)))
    have hvisit := laysOut_visit ctx n (e := e.onPath (path.extend id)) closed hb
      (fun id' hid' => @descend_of_done ctx id' _ (Or.inl hid'))
    rw [walk_cons_of_new hnew hn, descend_of_new hnew hn, List.append_nil]
    refine hvisit.writes fun id' b' e' closed' hb' => ?_
    rw [path_visit]
    exact walk_step id' _ b' e' closed' hb'
termination_by ctx.index.ahead path

end Walking

/-! ## Routines -/

/-- A connection that leads to a node. -/
def leadingTo (n : Node) : Connection := ⟨"", ⟨"", ""⟩, ⟨n.id, ""⟩⟩

/-- Entries are gone on to as by connections, on empty paths. -/
theorem entrySteps_eq (entries : List Node) (e : Emission) :
    entrySteps entries e
      = ((spread Arena.root (entries.map leadingTo) e).1.map fun x => ⟨x.node, .empty, x.block⟩,
        (spread Arena.root (entries.map leadingTo) e).2) := by
  induction entries generalizing e with
  | nil => rfl
  | cons n rest ih =>
      have h := ih (e.reserve .inline Arena.root).2
      rw [entrySteps]
      dsimp only
      rw [h]
      rfl

/-- **A routine is written as the descent tells it.** -/
theorem writeRoutine_writes (ctx : Context) (entries : List Node) (findings : Findings) :
    Writes Arena.root .new (writeRoutine ctx entries findings)
      (descendAll ctx entries findings) := by
  have hlays := lays_spread (fun id => descend ctx id .empty) (entries.map leadingTo)
    (e := { findings }) Arena.closed_new (Nat.lt_succ_self 0)
  have hpath : (spread Arena.root (entries.map leadingTo) { findings }).2.path = .empty :=
    path_spread ..
  have htargets : targets (entries.map leadingTo) = entries.map Node.id := by
    rw [targets, List.map_map]
    rfl
  rw [htargets] at hlays
  have hwrites := @LaysOut.writes ctx _ _ _
    (spread Arena.root (entries.map leadingTo) { findings }) _ ⟨_, hlays, rfl⟩
    fun id b e closed hb => by
      rw [hpath]
      exact walk_step id .empty b e closed hb
  rw [Visited.steps, hpath, detached_spread] at hwrites
  rw [writeRoutine, entrySteps_eq]
  exact hwrites

/-- **The walk refines the descent.**  What a routine is written as, with a
    stack of steps and blocks that are filled later, is what the descent
    tells: the same lines at every depth, and the same temporaries,
    diagnostics and return node. -/
theorem writeRoutine_refines_descent (b : Blueprint) (catalog : Catalog) (options : Options)
    (entries : List Node) (findings : Findings) (unit : String) (depth : Nat) :
    let ctx := Context.of b catalog options
    let written := writeRoutine ctx entries findings
    let told := descendAll ctx entries findings
    written.routine.blocks.render Statement.text unit depth Arena.root
        = Passage.linesOf Statement.text unit depth told.1
      ∧ written.routine.temporaries = told.2.routine.temporaries
      ∧ written.findings.diagnostics = told.2.findings.diagnostics
      ∧ written.routine.returnNode = told.2.routine.returnNode := by
  intro ctx written told
  have hwrites : Writes Arena.root .new written told := writeRoutine_writes ctx entries findings
  have hfinished : written.blocks.finished Arena.root = told.1 := by
    rw [Arena.finished, hwrites.text _ (fun _ _ => rfl) Arena.root (Nat.lt_succ_self 0),
      Arena.passages_eq, Arena.body_new, ahead_self]
    exact List.append_nil _
  refine ⟨?_, ?_, ?_, ?_⟩
  · rw [Arena.render_eq_linesOf, hfinished]
  · exact congrArg (fun e => e.routine.temporaries) hwrites.state
  · exact congrArg (fun e => e.findings.diagnostics) hwrites.state
  · exact congrArg (fun e => e.routine.returnNode) hwrites.state

end Blueprints
