import Blueprints.Emit.Read
import Blueprints.Proofs.Emit.Uniform
import Blueprints.Proofs.Wiring.Producers

/-! # What computing writes

    To compute a pure node writes assignments into one block.  The *log* of a
    computation lists them with their nodes, in the order in which they are
    written.  It is *valid*: every node in it was not current before and is
    in it once, and what the node depends on was current or stands earlier
    (`exists_log_compute`).

    The only way around this is a circle: a node that is being computed is
    not computed again for those that it depends on.  So each entry may
    instead have a dependency that leads back to it.

    Which nodes a computation comes to is told exactly: those that are
    reached along nodes that are not current (`Searches`), with or without a
    circle. -/

namespace Blueprints

open Relation (ReflTransGen)

/-! ## Operands -/

/-- The operand for what a source brings. -/
def Source.operand : Source → Operand
  | .literal v _ => .literal v
  | .parameter name _ => .parameter name
  | .temporary name _ _ => .temporary name
  | .undefined => .undefined

section Operands

variable (ctx : Context) (computing : String → Emission → Emission) (active : List String)
  (n : Node)

/-- What is read for an input does not depend on what was written. -/
theorem fst_readWith (param : String) (e : Emission) :
    (readWith ctx computing active n param e).1 = (ctx.source n param).operand := by
  rw [readWith]
  cases ctx.source n param with
  | temporary name output kind =>
      dsimp only
      split
      · rfl
      · rfl
  | _ => rfl

/-- **The operands are those of the sources**, whatever is computed on the way. -/
theorem fst_readAllWith (params : List String) (e : Emission) :
    (readAllWith ctx computing active n params e).1
      = params.map fun param => (param, (ctx.source n param).operand) := by
  induction params generalizing e with
  | nil => rfl
  | cons param rest ih =>
      show (param, (readWith ctx computing active n param e).1)
        :: (readAllWith ctx computing active n rest _).1 = _
      rw [ih, fst_readWith]
      rfl

variable {n} in
/-- The operand that was read for an input is that of its source. -/
theorem operandOf_eq {params : List String} {slot : String} (h : slot ∈ params) :
    operandOf (params.map fun param => (param, (ctx.source n param).operand)) slot
      = (ctx.source n slot).operand := by
  induction params with
  | nil => exact absurd h List.not_mem_nil
  | cons param rest ih =>
      rw [operandOf, List.map_cons, List.lookup_cons]
      cases hparam : slot == param with
      | true =>
          obtain rfl := eq_of_beq hparam
          rfl
      | false =>
          have hrest : slot ∈ rest := by
            rcases List.mem_cons.1 h with rfl | hrest
            · rw [beq_self_eq_true] at hparam
              exact nomatch hparam
            · exact hrest
          exact ih hrest

end Operands

/-- An operand that names the temporary of a pure node was read from that
    node. -/
theorem source_of_operand {ctx : Context} (complete : ctx.Complete) {n : Node}
    {slot t id : String} (h : (ctx.source n slot).operand = .temporary t)
    (hholds : ctx.Holds t id) :
    ∃ output kind, ctx.source n slot = .temporary t output kind ∧ output.node = id := by
  cases hsource : ctx.source n slot with
  | temporary t' output kind =>
      rw [hsource] at h
      obtain rfl := Operand.temporary.inj h
      exact ⟨output, kind, rfl, node_eq_of_holds complete hsource hholds⟩
  | _ =>
      rw [hsource] at h
      exact nomatch h

/-- A kind reads its slots. -/
theorem PureKind.operands_expr (kind : PureKind) (ctx : Context) (n : Node) (d : Definition)
    (operand : String → Operand) :
    (kind.expr ctx n d operand).operands = kind.slots.map operand := by
  cases kind with
  | text op => cases op with
    | _ => rfl
  | logic op => cases op with
    | _ => rfl
  | _ => rfl

/-! ## Currency -/

/-- A variable reader is current for the read that it was computed for. -/
theorem isCurrent_iff_of_reader {ctx : Context} {id : String} (h : ctx.isReader id = true)
    (e : Emission) : e.isCurrent ctx id = true ↔ id ∈ e.fresh := by
  rw [Emission.isCurrent, if_pos h, List.contains_iff_mem]

theorem isCurrent_iff_of_not_reader {ctx : Context} {id : String} (h : ctx.isReader id = false)
    (e : Emission) : e.isCurrent ctx id = true ↔ id ∈ e.path.latest := by
  rw [Emission.isCurrent, if_neg (by rw [h]; exact Bool.false_ne_true),
    VisitedPath.contains_iff_mem]

/-- Two emissions that differ in declarations and diagnostics only. -/
structure Agrees (e e' : Emission) : Prop where
  blocks : e'.blocks = e.blocks
  path : e'.path = e.path
  fresh : e'.fresh = e.fresh

theorem Agrees.refl (e : Emission) : Agrees e e := ⟨rfl, rfl, rfl⟩

theorem Agrees.trans {e e' e'' : Emission} (h : Agrees e e') (h' : Agrees e' e'') : Agrees e e'' :=
  ⟨h'.blocks.trans h.blocks, h'.path.trans h.path, h'.fresh.trans h.fresh⟩

theorem Agrees.isCurrent {e e' : Emission} (h : Agrees e e') (ctx : Context) (id : String) :
    e'.isCurrent ctx id = e.isCurrent ctx id := by
  rw [Emission.isCurrent, Emission.isCurrent, h.path, h.fresh]

theorem agrees_declare (e : Emission) (name type : String) : Agrees e (e.declare name type) :=
  ⟨e.blocks_declare name type, rfl, rfl⟩

theorem agrees_report (e : Emission) (kind : DiagnosticKind) (node message : String) :
    Agrees e (e.report kind node message) :=
  ⟨rfl, rfl, rfl⟩

/-- A report changes neither lines nor what is current, whether it is made or not. -/
theorem agrees_reportFanIn (e : Emission) (ctx : Context) (n : Node) (param : String) :
    Agrees e (e.reportFanIn ctx n param) := by
  rw [Emission.reportFanIn]
  split
  · exact agrees_report ..
  · exact .refl e

theorem agrees_reportNoValue (e : Emission) (ctx : Context) (n : Node) (param : String) :
    Agrees e (e.reportNoValue ctx n param) := by
  rw [Emission.reportNoValue]
  split
  · exact agrees_report ..
  · exact .refl e

/-! ## Logs -/

/-- The pure nodes that were computed, each with its assignment. -/
abbrev Log := List (String × Statement)

/-- The nodes of a log. -/
def Log.ids (log : Log) : List String := log.map Prod.fst

/-- The assignments of a log. -/
def Log.statements (log : Log) : List Statement := log.map Prod.snd

@[simp] theorem Log.ids_append (log log' : Log) : ids (log ++ log') = log.ids ++ log'.ids :=
  List.map_append

@[simp] theorem Log.statements_append (log log' : Log) :
    statements (log ++ log') = log.statements ++ log'.statements :=
  List.map_append

/-- The second emission has come from the first by computing the nodes of a
    log into a block. -/
structure Appends (ctx : Context) (b : Nat) (e : Emission) (log : Log) (r : Emission) : Prop where
  blocks : r.blocks = e.blocks.lines b log.statements
  path : ∀ y, y ∈ r.path.latest ↔ y ∈ e.path.latest ∨ (y ∈ log.ids ∧ ctx.isReader y = false)
  fresh : ∀ y, y ∈ r.fresh ↔ y ∈ e.fresh ∨ (y ∈ log.ids ∧ ctx.isReader y = true)

section Appending

variable {ctx : Context} {b : Nat} {e r r' : Emission} {log log' : Log}

/-- What has only been declared or reported was computed with an empty log. -/
theorem Agrees.appends (h : Agrees e r) : Appends ctx b e [] r where
  blocks := h.blocks
  path y := by simp [h.path, Log.ids]
  fresh y := by simp [h.fresh, Log.ids]

/-- One log after another is one log. -/
theorem Appends.trans (h : Appends ctx b e log r) (h' : Appends ctx b r log' r') :
    Appends ctx b e (log ++ log') r' where
  blocks := by rw [h'.blocks, h.blocks, Log.statements_append, Arena.lines_append]
  path y := by
    rw [h'.path, h.path, Log.ids_append, List.mem_append]
    tauto
  fresh y := by
    rw [h'.fresh, h.fresh, Log.ids_append, List.mem_append]
    tauto

/-- A node is current if it was, or if it was computed since. -/
theorem Appends.isCurrent_iff (h : Appends ctx b e log r) (y : String) :
    r.isCurrent ctx y = true ↔ e.isCurrent ctx y = true ∨ y ∈ log.ids := by
  cases hreader : ctx.isReader y with
  | true =>
      rw [isCurrent_iff_of_reader hreader, isCurrent_iff_of_reader hreader, h.fresh]
      simp [hreader]
  | false =>
      rw [isCurrent_iff_of_not_reader hreader, isCurrent_iff_of_not_reader hreader, h.path]
      simp [hreader]

end Appending

/-- An entry of a log, where the nodes that satisfy `cur` are current, those
    in `active` are being computed, and those that satisfy `reach` are wanted:
    the assignment of a pure node from sources of its own. -/
structure Entry (ctx : Context) (active : List String) (reach cur : String → Prop) (x : String)
    (s : Statement) : Prop where
  fresh : ¬cur x
  idle : x ∉ active
  reached : reach x
  assigns : ∃ (p : PureNode ctx x) (value : Expr), s = .assign p.temporary value
    ∧ ∀ o ∈ value.operands, ∃ slot ∈ p.kind.slots, o = (ctx.source p.node slot).operand
  dependencies : ∀ y, ctx.DependsOn x y → cur y ∨ y ∈ active ∨ ReflTransGen ctx.DependsOn y x

/-- A log in which every entry is one after those before it. -/
def Log.Valid (ctx : Context) (active : List String) (reach : String → Prop) :
    (String → Prop) → Log → Prop
  | _, [] => True
  | cur, (x, s) :: rest =>
    Entry ctx active reach cur x s ∧ Valid ctx active reach (fun y => cur y ∨ y = x) rest

theorem Log.or_mem_ids_nil (cur : String → Prop) : (fun y => cur y ∨ y ∈ ids []) = cur := by
  funext y
  simp [ids]

theorem Log.or_mem_ids_cons (cur : String → Prop) (entry : String × Statement) (rest : Log) :
    (fun y => cur y ∨ y ∈ ids (entry :: rest))
      = fun y => (cur y ∨ y = entry.1) ∨ y ∈ ids rest := by
  funext y
  simp [ids, or_assoc]

section Validity

variable {ctx : Context} {active active' : List String} {reach reach' cur cur' : String → Prop}

/-- A valid log stays valid where each of its entries does. -/
theorem Log.Valid.imp {log : Log}
    (himp : ∀ cur x s, Entry ctx active reach cur x s → Entry ctx active' reach' cur x s)
    (h : log.Valid ctx active reach cur) : log.Valid ctx active' reach' cur := by
  induction log generalizing cur with
  | nil => trivial
  | cons entry rest ih => exact ⟨himp _ _ _ h.1, ih h.2⟩

/-- **Valid logs can be joined**, if the second one takes the nodes of the first for
    current. -/
theorem Log.Valid.append {log log' : Log} (h : log.Valid ctx active reach cur)
    (h' : log'.Valid ctx active reach fun y => cur y ∨ y ∈ log.ids) :
    Valid ctx active reach cur (log ++ log') := by
  induction log generalizing cur with
  | nil =>
      rw [or_mem_ids_nil] at h'
      exact h'
  | cons entry rest ih =>
      rw [or_mem_ids_cons] at h'
      exact ⟨h.1, ih h.2 h'⟩

/-- Every node of a log has its entry, after those that stand before it. -/
theorem Log.Valid.entry {log : Log} (h : log.Valid ctx active reach cur) {x : String}
    (hx : x ∈ log.ids) :
    ∃ before s after, log = before ++ (x, s) :: after
      ∧ Entry ctx active reach (fun y => cur y ∨ y ∈ ids before) x s := by
  induction log generalizing cur with
  | nil => exact absurd hx List.not_mem_nil
  | cons entry rest ih =>
      rcases List.mem_cons.1 hx with rfl | hrest
      · refine ⟨[], entry.2, rest, rfl, ?_⟩
        rw [or_mem_ids_nil]
        exact h.1
      · obtain ⟨before, s, after, rfl, hentry⟩ := ih h.2 hrest
        refine ⟨entry :: before, s, after, rfl, ?_⟩
        rw [or_mem_ids_cons]
        exact hentry

/-- A log writes nothing but assignments to the temporaries of its nodes. -/
theorem Log.Valid.assigns {log : Log} (h : log.Valid ctx active reach cur) {s : Statement}
    (hs : s ∈ log.statements) :
    ∃ x ∈ log.ids, ∃ t value, s = .assign t value ∧ ctx.Holds t x := by
  induction log generalizing cur with
  | nil => exact absurd hs List.not_mem_nil
  | cons entry rest ih =>
      rcases List.mem_cons.1 hs with rfl | hrest
      · obtain ⟨p, value, hassign, -⟩ := h.1.assigns
        exact ⟨entry.1, List.mem_cons_self .., p.temporary, value, hassign, p, rfl⟩
      · obtain ⟨x, hx, hassign⟩ := ih h.2 hrest
        exact ⟨x, List.mem_cons_of_mem _ hx, hassign⟩

/-- A node that is being computed is in no log of what it depends on. -/
theorem Log.Valid.not_mem_ids_of_active {log : Log} (h : log.Valid ctx active reach cur)
    {x : String} (hx : x ∈ active) : x ∉ log.ids := by
  intro hmem
  obtain ⟨_, _, _, _, hentry⟩ := h.entry hmem
  exact hentry.idle hx

/-- The nodes of a log were not current. -/
theorem Log.Valid.not_current {log : Log} (h : log.Valid ctx active reach cur) {x : String}
    (hx : x ∈ log.ids) : ¬cur x := by
  obtain ⟨_, _, _, _, hentry⟩ := h.entry hx
  exact fun hcur => hentry.fresh (Or.inl hcur)

/-- When a node is done, what waited for it leads back to it. -/
theorem Entry.release {id x : String} {s : Statement}
    (h : Entry ctx (id :: active) reach cur x s) (hreach : ReflTransGen ctx.DependsOn id x) :
    Entry ctx active (ReflTransGen ctx.DependsOn id) cur x s := by
  refine { h with
    idle := fun hx => h.idle (List.mem_cons_of_mem _ hx)
    reached := hreach
    dependencies := fun y hy => ?_ }
  rcases h.dependencies y hy with hcur | hact | hback
  · exact Or.inl hcur
  · rcases List.mem_cons.1 hact with rfl | hact'
    · exact Or.inr (Or.inr hreach)
    · exact Or.inr (Or.inl hact')
  · exact Or.inr (Or.inr hback)

end Validity

/-! ## Reading an input -/

section Reading

variable (ctx : Context) (computing : String → Emission → Emission) (active : List String)
  (n : Node)

/-- To read an input computes its producer, if that is a pure node which is
    neither current nor active, and else changes no statement. -/
theorem readWith_cases (param : String) (e : Emission) :
    ∃ e', Agrees e e' ∧
      (((readWith ctx computing active n param e).2 = e'
          ∧ ∀ t output kind, ctx.source n param = .temporary t output kind →
            ctx.index.isPure ctx.catalog output.node = true →
            e.isCurrent ctx output.node = true ∨ output.node ∈ active)
        ∨ ∃ t output kind, ctx.source n param = .temporary t output kind
          ∧ ctx.index.isPure ctx.catalog output.node = true
          ∧ e.isCurrent ctx output.node = false ∧ output.node ∉ active
          ∧ (readWith ctx computing active n param e).2 = computing output.node e') := by
  have hfan := agrees_reportFanIn e ctx n param
  rw [readWith]
  cases hsource : ctx.source n param with
  | literal | parameter =>
      refine ⟨_, hfan, Or.inl ⟨rfl, ?_⟩⟩
      intro t output kind heq
      cases heq
  | undefined =>
      refine ⟨_, hfan.trans (agrees_reportNoValue ..), Or.inl ⟨rfl, ?_⟩⟩
      intro t output kind heq
      cases heq
  | temporary t output kind =>
      have hdeclare := hfan.trans (agrees_declare _ t kind.typeName)
      refine ⟨_, hdeclare, ?_⟩
      dsimp only
      rw [hdeclare.isCurrent ctx output.node]
      split
      · next hcompute =>
        simp only [Bool.and_eq_true, Bool.not_eq_true', List.contains_eq_mem,
          decide_eq_false_iff_not] at hcompute
        exact Or.inr ⟨t, output, kind, rfl, hcompute.1.1, hcompute.1.2, hcompute.2, rfl⟩
      · next hidle =>
        refine Or.inl ⟨rfl, fun t' output' kind' heq hpure => ?_⟩
        obtain ⟨-, rfl, -⟩ := Source.temporary.inj heq
        simp only [Bool.and_eq_true, Bool.not_eq_true', List.contains_eq_mem,
          decide_eq_false_iff_not, hpure, true_and, not_and, not_not] at hidle
        cases hcur : e.isCurrent ctx output.node with
        | true => exact Or.inl rfl
        | false => exact Or.inr (hidle hcur)

/-- Nothing is computed for inputs whose producers are current or active. -/
theorem agrees_readAllWith (params : List String) {e : Emission}
    (h : ∀ param ∈ params, ∀ t output kind, ctx.source n param = .temporary t output kind →
      ctx.index.isPure ctx.catalog output.node = true →
        e.isCurrent ctx output.node = true ∨ output.node ∈ active) :
    Agrees e (readAllWith ctx computing active n params e).2 := by
  induction params generalizing e with
  | nil => exact .refl e
  | cons param rest ih =>
      have hfirst : Agrees e (readWith ctx computing active n param e).2 := by
        obtain ⟨e', hsame, ⟨heq, -⟩ | ⟨t, output, kind, hsource, hpure, hcur, hact, -⟩⟩ :=
          readWith_cases ctx computing active n param e
        · rw [heq]
          exact hsame
        · rcases h param (List.mem_cons_self ..) t output kind hsource hpure with hcur' | hact'
          · rw [hcur] at hcur'
            exact nomatch hcur'
          · exact absurd hact' hact
      refine hfirst.trans (ih fun param' hparam' t output kind hsource hpure => ?_)
      rw [hfirst.isCurrent]
      exact h param' (List.mem_cons_of_mem _ hparam') t output kind hsource hpure

end Reading

/-! ## Computing -/

/-- **An assignment reads all inputs of its kind, declares its temporary and writes
    one line**, whose operands are those of the sources. -/
theorem assignWith_eq {ctx : Context} {id : String} (p : PureNode ctx id)
    (computing : String → Emission → Emission) (active : List String) (b : Nat) (e : Emission) :
    ∃ value : Expr,
      (∀ o ∈ value.operands, ∃ slot ∈ p.kind.slots, o = (ctx.source p.node slot).operand)
      ∧ assignWith ctx computing active p.node b e
        = ((readAllWith ctx computing active p.node p.kind.slots e).2.declare p.temporary
            p.type).emit b (.assign p.temporary value) := by
  refine ⟨p.kind.expr ctx p.node p.definition
    (operandOf (readAllWith ctx computing active p.node p.kind.slots e).1), ?_, ?_⟩
  · intro o ho
    rw [PureKind.operands_expr] at ho
    obtain ⟨slot, hslot, rfl⟩ := List.mem_map.1 ho
    refine ⟨slot, hslot, ?_⟩
    rw [fst_readAllWith, operandOf_eq ctx hslot]
  · rw [assignWith, p.known]
    dsimp only
    rw [p.pure, p.result]

/-- To compute a node that is neither current nor active is to compute what it
    depends on, to assign it and to settle it. -/
theorem compute_of_node {ctx : Context} {b : Nat} {active : List String} {id : String}
    {e : Emission} {n : Node} (hcur : e.isCurrent ctx id = false) (hidle : id ∉ active)
    (hn : ctx.index.node? id = some n) :
    compute ctx b active id e
      = (assignWith ctx (compute ctx b (id :: active)) (id :: active) n b
          ((ctx.pureDependencies n).foldl
            (fun e y => compute ctx b (id :: active) y e) e)).settle ctx id := by
  rw [compute, if_neg (by rw [hcur]; exact Bool.false_ne_true), dif_neg hidle]
  split
  · next hnone => exact absurd (hnone.symm.trans hn) (by simp)
  · next n' hn' =>
    obtain rfl : n' = n := Option.some.inj (hn'.symm.trans hn)
    rfl

/-- A node whose assignment is written and that is settled is the last of a
    log. -/
theorem Agrees.appends_settle {e e' : Emission} (h : Agrees e e') (ctx : Context) (b : Nat)
    (id : String) (s : Statement) : Appends ctx b e [(id, s)] ((e'.emit b s).settle ctx id) := by
  have hblocks : e'.blocks.line b s = e.blocks.line b s := by rw [h.blocks]
  have hids : ∀ y, y ∈ Log.ids [(id, s)] ↔ y = id := fun y => List.mem_singleton
  rw [Emission.settle]
  cases hreader : ctx.isReader id with
  | true =>
      rw [if_pos rfl]
      refine ⟨hblocks, fun y => ?_, fun y => ?_⟩
      · show y ∈ e'.path.latest ↔ _
        rw [h.path, hids]
        grind
      · show y ∈ id :: e'.fresh ↔ _
        rw [h.fresh, List.mem_cons, hids]
        grind
  | false =>
      rw [if_neg Bool.false_ne_true]
      refine ⟨hblocks, fun y => ?_, fun y => ?_⟩
      · show y ∈ id :: e'.path.latest ↔ _
        rw [h.path, List.mem_cons, hids]
        grind
      · show y ∈ e'.fresh ↔ _
        rw [h.fresh, hids]
        grind

/-- To compute a node that is neither current nor active computes what it
    depends on, and then writes the assignment of the node. -/
theorem exists_appends_compute {ctx : Context} (complete : ctx.Complete) {b : Nat}
    {active : List String} {id : String} {e r : Emission} (p : PureNode ctx id)
    (hcur : e.isCurrent ctx id = false) (hidle : id ∉ active)
    (hr : (ctx.pureDependencies p.node).foldl
      (fun e y => compute ctx b (id :: active) y e) e = r)
    (hdone : ∀ y ∈ ctx.pureDependencies p.node, r.isCurrent ctx y = true ∨ y ∈ id :: active) :
    ∃ value : Expr,
      (∀ o ∈ value.operands, ∃ slot ∈ p.kind.slots, o = (ctx.source p.node slot).operand)
      ∧ Appends ctx b r [(id, .assign p.temporary value)] (compute ctx b active id e) := by
  obtain ⟨value, hvalue, hassign⟩ := assignWith_eq p (compute ctx b (id :: active)) (id :: active)
    b r
  -- nothing is left to compute for the inputs
  have hread := agrees_readAllWith ctx (compute ctx b (id :: active)) (id :: active) p.node
    p.kind.slots (e := r) fun slot hslot t output kind hsource hpure =>
      hdone output.node (p.dependsOn complete hslot hsource hpure)
  refine ⟨value, hvalue, ?_⟩
  rw [compute_of_node hcur hidle p.found, hr, hassign]
  exact (hread.trans (agrees_declare _ p.temporary p.type)).appends_settle ctx b id
    (.assign p.temporary value)

/-- A computation that wants a node: its log is valid, and the node is current
    after it unless it was being computed. -/
def Computes (ctx : Context) (b : Nat) (active : List String) (id : String) (e r : Emission) :
    Prop :=
  ∃ log, Appends ctx b e log r
    ∧ Log.Valid ctx active (ReflTransGen ctx.DependsOn id) (fun y => e.isCurrent ctx y = true) log
    ∧ (r.isCurrent ctx id = true ∨ id ∈ active)

/-- Several computations, one after the other. -/
theorem exists_log_foldl {ctx : Context} {b : Nat} {active : List String}
    {computing : String → Emission → Emission} (ids : List String)
    (h : ∀ id ∈ ids, ∀ e, Computes ctx b active id e (computing id e)) (e : Emission) :
    ∃ log, Appends ctx b e log (ids.foldl (fun e id => computing id e) e)
      ∧ Log.Valid ctx active (fun x => ∃ id ∈ ids, ReflTransGen ctx.DependsOn id x)
        (fun y => e.isCurrent ctx y = true) log
      ∧ ∀ id ∈ ids, (ids.foldl (fun e id => computing id e) e).isCurrent ctx id = true
        ∨ id ∈ active := by
  induction ids generalizing e with
  | nil => exact ⟨[], (Agrees.refl e).appends, trivial, nofun⟩
  | cons id rest ih =>
      obtain ⟨log, happends, hvalid, hid⟩ := h id (List.mem_cons_self ..) e
      obtain ⟨log', happends', hvalid', hrest⟩ :=
        ih (fun id' hid' => h id' (List.mem_cons_of_mem _ hid')) (computing id e)
      refine ⟨log ++ log', happends.trans happends', ?_, ?_⟩
      · refine Log.Valid.append (hvalid.imp fun cur x s entry => ?_) ?_
        · exact { entry with reached := ⟨id, List.mem_cons_self .., entry.reached⟩ }
        · have hcur : (fun y => e.isCurrent ctx y = true ∨ y ∈ log.ids)
              = fun y => (computing id e).isCurrent ctx y = true := by
            funext y
            exact propext (happends.isCurrent_iff y).symm
          rw [hcur]
          refine hvalid'.imp fun cur x s entry => ?_
          obtain ⟨id', hid', hreach⟩ := entry.reached
          exact { entry with reached := ⟨id', List.mem_cons_of_mem _ hid', hreach⟩ }
      · intro id' hid'
        rcases List.mem_cons.1 hid' with rfl | hmem
        · rcases hid with hcur | hact
          · exact Or.inl ((happends'.isCurrent_iff id').2 (Or.inl hcur))
          · exact Or.inr hact
        · exact hrest id' hmem

/-- **What computing a pure node writes**: the assignments of a valid log. -/
theorem exists_log_compute {ctx : Context} (complete : ctx.Complete) (b : Nat)
    (active : List String) (id : String) (hpure : ctx.index.isPure ctx.catalog id = true)
    (e : Emission) : Computes ctx b active id e (compute ctx b active id e) := by
  cases hcur : e.isCurrent ctx id with
  | true =>
      rw [compute, if_pos hcur]
      exact ⟨[], (Agrees.refl e).appends, trivial, Or.inl hcur⟩
  | false =>
      by_cases hidle : id ∈ active
      · rw [compute, if_neg (by rw [hcur]; exact Bool.false_ne_true), dif_pos hidle]
        exact ⟨[], (agrees_report ..).appends, trivial, Or.inr hidle⟩
      · obtain ⟨p⟩ := complete.pureNode hpure
        have hsmaller : (unlisted ctx.index.nodeIds (id :: active)).length
            < (unlisted ctx.index.nodeIds active).length :=
          length_unlisted_lt (fun _ h => List.mem_cons_of_mem _ h)
            (Index.mem_nodeIds_of_node? p.found) hidle (List.mem_cons_self ..)
        -- first the nodes that it depends on
        obtain ⟨log, happends, hvalid, hdone⟩ := exists_log_foldl (ctx.pureDependencies p.node)
          (fun y hy e' => exists_log_compute complete b (id :: active) y
            (by
              obtain ⟨d, -, hpure', -⟩ := mem_pureDependencies.1 hy
              exact hpure') e') e
        -- then the node itself
        obtain ⟨value, hvalue, hlast⟩ := exists_appends_compute complete p hcur hidle rfl hdone
        refine ⟨_, happends.trans hlast, Log.Valid.append ?_ ⟨?_, trivial⟩, Or.inl ?_⟩
        · refine hvalid.imp fun cur x s entry => ?_
          obtain ⟨y, hy, hreach⟩ := entry.reached
          exact entry.release (.head ⟨p.node, p.found, hy⟩ hreach)
        · refine ⟨?_, hidle, .refl, ⟨p, value, rfl, hvalue⟩, fun y hy => ?_⟩
          · rintro (hnow | hmem)
            · rw [hcur] at hnow
              cases hnow
            · exact hvalid.not_mem_ids_of_active (List.mem_cons_self ..) hmem
          · obtain ⟨n, hn, hy⟩ := hy
            obtain rfl : p.node = n := Option.some.inj (p.found.symm.trans hn)
            rcases hdone y hy with hcur' | hact
            · exact Or.inl ((happends.isCurrent_iff y).1 hcur')
            · rcases List.mem_cons.1 hact with rfl | hact'
              · exact Or.inr (Or.inr .refl)
              · exact Or.inr (Or.inl hact')
        · rw [hlast.isCurrent_iff]
          exact Or.inr (List.mem_singleton_self id)
termination_by (unlisted ctx.index.nodeIds active).length

/-! ## What a computation comes to -/

/-- A node depends on another one that is not current. -/
def Context.NeedsAnew (ctx : Context) (e : Emission) (x y : String) : Prop :=
  ctx.DependsOn x y ∧ ¬e.isCurrent ctx y = true

/-- Some nodes have become current between two emissions: each of them is
    reached from a wanted node along nodes that were not current, and what it
    depends on is current now, or active. -/
structure Searches (ctx : Context) (active : List String) (wanted : String → Prop)
    (e r : Emission) : Prop where
  grows : ∀ {x}, e.isCurrent ctx x = true → r.isCurrent ctx x = true
  reached : ∀ {x}, r.isCurrent ctx x = true → ¬e.isCurrent ctx x = true →
    ∃ id, wanted id ∧ ¬e.isCurrent ctx id = true ∧ ReflTransGen (ctx.NeedsAnew e) id x
  closed : ∀ {x y}, r.isCurrent ctx x = true → ¬e.isCurrent ctx x = true → ctx.DependsOn x y →
    r.isCurrent ctx y = true ∨ y ∈ active

section Search

variable {ctx : Context} {active : List String} {wanted wanted' : String → Prop}
  {e r r' : Emission}

/-- Without a computation there is nothing to be reached. -/
theorem Agrees.searches (h : Agrees e r) : Searches ctx active wanted e r := by
  refine ⟨fun {x} hx => ?_, fun {x} hx hx' => ?_, fun {x y} hx hx' => ?_⟩
  · rw [h.isCurrent]
    exact hx
  · rw [h.isCurrent] at hx
    exact absurd hx hx'
  · rw [h.isCurrent] at hx
    exact absurd hx hx'

theorem Context.NeedsAnew.mono (hgrows : ∀ {x}, e.isCurrent ctx x = true → r.isCurrent ctx x = true)
    {x y : String} (h : ctx.NeedsAnew r x y) : ctx.NeedsAnew e x y :=
  ⟨h.1, fun hcur => h.2 (hgrows hcur)⟩

/-- **Searches can be joined**: what the second one reaches was not current for the
    first one either. -/
theorem Searches.trans (h : Searches ctx active wanted e r) (h' : Searches ctx active wanted r r') :
    Searches ctx active wanted e r' := by
  refine ⟨fun hcur => h'.grows (h.grows hcur), fun {x} hnow hold => ?_, fun {x y} hnow hold hy => ?_⟩
  · by_cases hmid : r.isCurrent ctx x = true
    · exact h.reached hmid hold
    · obtain ⟨id, hid, hnot, hchain⟩ := h'.reached hnow hmid
      refine ⟨id, hid, fun hcur => hnot (h.grows hcur), ?_⟩
      exact ReflTransGen.mono (fun _ _ => Context.NeedsAnew.mono h.grows) _ _ hchain
  · by_cases hmid : r.isCurrent ctx x = true
    · rcases h.closed hmid hold hy with hcur | hact
      · exact Or.inl (h'.grows hcur)
      · exact Or.inr hact
    · exact h'.closed hnow hmid hy

/-- A search for some nodes is one for more. -/
theorem Searches.imp (h : Searches ctx active wanted e r) (himp : ∀ id, wanted id → wanted' id) :
    Searches ctx active wanted' e r := by
  refine ⟨h.grows, fun hnow hold => ?_, h.closed⟩
  obtain ⟨id, hid, hrest⟩ := h.reached hnow hold
  exact ⟨id, himp id hid, hrest⟩

/-- To compute nodes one after the other is a search for all of them. By induction
    on the nodes. -/
theorem searches_foldl {computing : String → Emission → Emission} (ids : List String)
    (h : ∀ id ∈ ids, ∀ e, Searches ctx active (· = id) e (computing id e)) (e : Emission) :
    Searches ctx active (· ∈ ids) e (ids.foldl (fun e id => computing id e) e) := by
  induction ids generalizing e with
  | nil => exact (Agrees.refl e).searches
  | cons id rest ih =>
      have hfirst : Searches ctx active (· ∈ id :: rest) e (computing id e) :=
        (h id (List.mem_cons_self ..) e).imp fun id' heq => heq ▸ List.mem_cons_self ..
      have hrest : Searches ctx active (· ∈ id :: rest) (computing id e)
          (rest.foldl (fun e id => computing id e) (computing id e)) :=
        (ih (fun id' hid' => h id' (List.mem_cons_of_mem _ hid')) _).imp
          fun id' hid' => List.mem_cons_of_mem _ hid'
      exact hfirst.trans hrest

/-- **What computing a pure node comes to.** -/
theorem searches_compute (complete : ctx.Complete) (b : Nat) (active : List String) (id : String)
    (hpure : ctx.index.isPure ctx.catalog id = true) (e : Emission) :
    Searches ctx active (· = id) e (compute ctx b active id e) := by
  cases hcur : e.isCurrent ctx id with
  | true =>
      rw [compute, if_pos hcur]
      exact (Agrees.refl e).searches
  | false =>
      by_cases hidle : id ∈ active
      · rw [compute, if_neg (by rw [hcur]; exact Bool.false_ne_true), dif_pos hidle]
        exact (agrees_report ..).searches
      · obtain ⟨p⟩ := complete.pureNode hpure
        have hsmaller : (unlisted ctx.index.nodeIds (id :: active)).length
            < (unlisted ctx.index.nodeIds active).length :=
          length_unlisted_lt (fun _ h => List.mem_cons_of_mem _ h)
            (Index.mem_nodeIds_of_node? p.found) hidle (List.mem_cons_self ..)
        have hdependency : ∀ y ∈ ctx.pureDependencies p.node,
            ctx.index.isPure ctx.catalog y = true := by
          intro y hy
          obtain ⟨d, -, hpure', -⟩ := mem_pureDependencies.1 hy
          exact hpure'
        have hsearch := searches_foldl (ctx.pureDependencies p.node) (fun y hy e' =>
          searches_compute complete b (id :: active) y (hdependency y hy) e') e
        obtain ⟨-, -, -, hdone⟩ := exists_log_foldl (ctx.pureDependencies p.node) (fun y hy e' =>
          exists_log_compute complete b (id :: active) y (hdependency y hy) e') e
        obtain ⟨value, -, hlast⟩ := exists_appends_compute complete p hcur hidle rfl hdone
        have hnow : ∀ y, (compute ctx b active id e).isCurrent ctx y = true
            ↔ ((ctx.pureDependencies p.node).foldl
              (fun e y => compute ctx b (id :: active) y e) e).isCurrent ctx y = true ∨ y = id := by
          intro y
          rw [hlast.isCurrent_iff]
          exact or_congr_right List.mem_singleton
        have hnot : ¬e.isCurrent ctx id = true := by
          rw [hcur]
          exact Bool.false_ne_true
        refine ⟨fun h => (hnow _).2 (Or.inl (hsearch.grows h)), fun {x} hx hold => ?_,
          fun {x y} hx hold hy => ?_⟩
        · refine ⟨id, rfl, hnot, ?_⟩
          rcases (hnow x).1 hx with hx | rfl
          · obtain ⟨y, hy, hcur', hchain⟩ := hsearch.reached hx hold
            exact .head ⟨⟨p.node, p.found, hy⟩, hcur'⟩ hchain
          · exact .refl
        · -- the node itself is active only while it is computed
          have hall : ((ctx.pureDependencies p.node).foldl
              (fun e y => compute ctx b (id :: active) y e) e).isCurrent ctx y = true
                ∨ y ∈ id :: active := by
            rcases (hnow x).1 hx with hx | rfl
            · exact hsearch.closed hx hold hy
            · obtain ⟨n, hn, hy⟩ := hy
              obtain rfl : p.node = n := Option.some.inj (p.found.symm.trans hn)
              exact hdone y hy
          rw [hnow]
          rcases hall with hcur' | hact
          · exact Or.inl (Or.inl hcur')
          · rcases List.mem_cons.1 hact with rfl | hact
            · exact Or.inl (Or.inr rfl)
            · exact Or.inr hact
termination_by (unlisted ctx.index.nodeIds active).length

end Search

/-! ## Reading -/

/-- The nodes that computing the producer of an input can lead to. -/
def Context.Feeds (ctx : Context) (n : Node) (param x : String) : Prop :=
  ∃ t output kind, ctx.source n param = .temporary t output kind
    ∧ ctx.index.isPure ctx.catalog output.node = true ∧ ReflTransGen ctx.DependsOn output.node x

/-- To read an input has computed the nodes of a log: its producer, if that is
    pure and was not current, and what the producer needs. -/
structure Reads (ctx : Context) (b : Nat) (n : Node) (param : String) (e : Emission) (log : Log)
    (r : Emission) : Prop where
  blocks : r.blocks = e.blocks.lines b log.statements
  path : ∀ y, y ∈ r.path.latest ↔ y ∈ e.path.latest ∨ (y ∈ log.ids ∧ ctx.isReader y = false)
  fresh : r.fresh = []
  valid : log.Valid ctx [] (ctx.Feeds n param) fun y => e.isCurrent ctx y = true
  producer : ∀ {t : String} {output : Endpoint} {kind : ParamKind},
    ctx.source n param = .temporary t output kind →
    ctx.index.isPure ctx.catalog output.node = true →
      e.isCurrent ctx output.node = true ∨ output.node ∈ log.ids

/-- What a read computes was not current. -/
theorem Reads.not_current {ctx : Context} {b : Nat} {n : Node} {param : String} {e r : Emission}
    {log : Log} (h : Reads ctx b n param e log r) {x : String} (hx : x ∈ log.ids) :
    ¬e.isCurrent ctx x = true :=
  h.valid.not_current hx

/-- To read an input takes a node anew: one comes to it from the producer of
    the input along nodes that are not current. -/
def Context.TakesAnew (ctx : Context) (e : Emission) (n : Node) (param x : String) : Prop :=
  ∃ t output kind, ctx.source n param = .temporary t output kind
    ∧ ctx.index.isPure ctx.catalog output.node = true
    ∧ ¬e.isCurrent ctx output.node = true ∧ ReflTransGen (ctx.NeedsAnew e) output.node x

theorem Agrees.needsAnew {e e' : Emission} (h : Agrees e e') (ctx : Context) :
    ctx.NeedsAnew e' = ctx.NeedsAnew e := by
  funext x y
  rw [Context.NeedsAnew, Context.NeedsAnew, h.isCurrent]

/-- **What reading an input writes**: the assignments of the nodes that it
    takes anew. -/
theorem exists_exact_log_readInput {ctx : Context} (complete : ctx.Complete) (b : Nat) (n : Node)
    (param : String) {e : Emission} (hfresh : e.fresh = []) :
    ∃ log, Reads ctx b n param e log (readInput ctx n param b e).2
      ∧ ∀ x, x ∈ log.ids ↔ ctx.TakesAnew e n param x := by
  rw [readInput]
  obtain ⟨e', hsame, ⟨heq, hidle⟩ | ⟨t, output, kind, hsource, hpure, hcur, -, heq⟩⟩ :=
    readWith_cases ctx (computeOnce ctx b) [] n param e
  · rw [heq]
    have happends : Appends ctx b e [] e' := hsame.appends
    have hproducer : ∀ {t : String} {output : Endpoint} {kind : ParamKind},
        ctx.source n param = .temporary t output kind →
        ctx.index.isPure ctx.catalog output.node = true →
          e.isCurrent ctx output.node = true := by
      intro t output kind hsource hpure
      rcases hidle t output kind hsource hpure with hcur | hact
      · exact hcur
      · exact absurd hact List.not_mem_nil
    refine ⟨[], ⟨happends.blocks, happends.path, hsame.fresh.trans hfresh, trivial,
      fun hsource hpure => Or.inl (hproducer hsource hpure)⟩, fun x => ?_⟩
    refine ⟨fun hx => absurd hx List.not_mem_nil, ?_⟩
    rintro ⟨t, output, kind, hsource, hpure, hcur, -⟩
    exact absurd (hproducer hsource hpure) hcur
  · rw [heq]
    obtain ⟨log, happends, hvalid, hdone⟩ :=
      exists_log_compute complete b [] output.node hpure e'
    have hsearch := searches_compute complete b [] output.node hpure e'
    have hnone : Appends ctx b e [] e' := hsame.appends
    have htotal := hnone.trans happends
    have hsamecur : (fun y => e'.isCurrent ctx y = true) = fun y => e.isCurrent ctx y = true := by
      funext y
      rw [hsame.isCurrent]
    rw [hsamecur] at hvalid
    have hproducer : (compute ctx b [] output.node e').isCurrent ctx output.node = true := by
      rcases hdone with hcur' | hact
      · exact hcur'
      · exact absurd hact List.not_mem_nil
    refine ⟨log, ⟨htotal.blocks, htotal.path, rfl, hvalid.imp fun cur x s entry => ?_, ?_⟩,
      fun x => ⟨fun hx => ?_, ?_⟩⟩
    · exact { entry with reached := ⟨t, output, kind, hsource, hpure, entry.reached⟩ }
    · intro t' output' kind' hsource' _
      obtain ⟨-, rfl, -⟩ := Source.temporary.inj (hsource.symm.trans hsource')
      exact (htotal.isCurrent_iff output.node).1 hproducer
    · have hold := hvalid.not_current hx
      have hnow := (htotal.isCurrent_iff x).2 (Or.inr hx)
      rw [← hsame.isCurrent] at hold
      obtain ⟨_, rfl, hnot, hchain⟩ := hsearch.reached hnow hold
      rw [hsame.isCurrent] at hnot
      rw [hsame.needsAnew] at hchain
      exact ⟨t, output, kind, hsource, hpure, hnot, hchain⟩
    · rintro ⟨t', output', kind', hsource', -, hnot, hchain⟩
      obtain ⟨-, rfl, -⟩ := Source.temporary.inj (hsource.symm.trans hsource')
      -- along the chain every node has become current
      have hnow : (compute ctx b [] output.node e').isCurrent ctx x = true
          ∧ ¬e.isCurrent ctx x = true := by
        induction hchain with
        | refl => exact ⟨hproducer, hnot⟩
        | tail _ hstep ih =>
            have hold := ih.2
            rw [← hsame.isCurrent] at hold
            refine ⟨?_, hstep.2⟩
            exact (hsearch.closed ih.1 hold hstep.1).resolve_right List.not_mem_nil
      exact ((htotal.isCurrent_iff x).1 hnow.1).resolve_left hnow.2

/-- To read a single input has a log, as to read several has. -/
theorem exists_log_readInput {ctx : Context} (complete : ctx.Complete) (b : Nat) (n : Node)
    (param : String) {e : Emission} (hfresh : e.fresh = []) :
    ∃ log, Reads ctx b n param e log (readInput ctx n param b e).2 := by
  obtain ⟨log, hreads, -⟩ := exists_exact_log_readInput complete b n param hfresh
  exact ⟨log, hreads⟩

end Blueprints
