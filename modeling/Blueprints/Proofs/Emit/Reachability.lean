import Mathlib.Logic.Relation
import Blueprints.Catalog.Palette
import Blueprints.Proofs.Emit.Running

/-! # A routine is written for the nodes that control reaches

    A walk is its *visits*, one after the other (`walk_eq_foldl_visits`).
    Where pure nodes have no output that carries control, the nodes that are
    visited and not pure are those to which successors lead from the entries.

    * Nothing else is visited: an exit of a visit leads to a successor.
    * Nothing is lost.  A step is dropped if its node is on its path, and the
      path is per step.  It holds the nodes that control has come by and pure
      nodes that were computed (`visit_addsPure`); so a way that meets no node
      twice is followed to its end, and what can be reached can be reached on
      such a way (`exists_avoiding`). -/

namespace Blueprints

open Relation (ReflTransGen)

/-! ## Visits -/

/-- The visits of a walk, in their order: each a step and its node. -/
def visits (ctx : Context) (stack : List Step) (e : Emission) : List (Step × Node) :=
  match stack with
  | [] => []
  | step :: rest =>
    if _new : step.path.contains step.node then visits ctx rest e
    else
      match _found : ctx.index.node? step.node with
      | none => visits ctx rest e
      | some n =>
        let visited := step.visited ctx n e
        (step, n) :: visits ctx (visited.steps ++ rest) visited.2
termination_by total (stack.map ctx.weight)
decreasing_by
  · exact Nat.lt_add_of_pos_left (ctx.weight_pos step)
  · exact Nat.lt_add_of_pos_left (ctx.weight_pos step)
  · rw [List.map_append, total_append]
    exact Nat.add_lt_add_right (Context.weight_visit e _found _new) _

/-- **A walk is its visits, one after the other.** -/
theorem walk_eq_foldl_visits (ctx : Context) (stack : List Step) (e : Emission) :
    walk ctx stack e = (visits ctx stack e).foldl (fun e v => (v.1.visited ctx v.2 e).2) e := by
  fun_induction visits ctx stack e with
  | case1 e => exact walk_nil e
  | case2 e step rest hdone ih => exact (walk_cons_of_done (Or.inl hdone) ..).trans ih
  | case3 e step rest hnew hnone ih => exact (walk_cons_of_done (Or.inr hnone) ..).trans ih
  | case4 e step rest hnew n hn visited ih => exact (walk_cons_of_new hnew hn ..).trans ih

/-! ## What visits add to the path -/

/-- What is on the second path and not on the first is pure. -/
def Context.AddsPure (ctx : Context) (p q : Trail) : Prop :=
  ∀ id ∈ q.latest, id ∈ p.latest ∨ ctx.index.isPure ctx.catalog id = true

theorem Context.AddsPure.refl (ctx : Context) (p : Trail) : ctx.AddsPure p p := fun _ => Or.inl

/-- What two parts of a run add is pure if what each of them adds is. -/
theorem Context.AddsPure.trans {ctx : Context} {p q r : Trail} (h : ctx.AddsPure p q)
    (h' : ctx.AddsPure q r) : ctx.AddsPure p r := by
  intro id hid
  rcases h' id hid with hold | hpure
  · exact h id hold
  · exact Or.inr hpure

section Reading

variable {ctx : Context} {computing : String → Emission → Emission} {active : List String}
  {n : Node}
  (hadds : ∀ id (e : Emission), ctx.index.isPure ctx.catalog id = true →
    ctx.AddsPure e.path (computing id e).path)

include hadds

/-- To read an input adds its producer at most, which is pure. -/
theorem readWith_addsPure (param : String) (e : Emission) :
    ctx.AddsPure e.path (readWith ctx computing active n param e).2.path := by
  obtain ⟨e', hsame, ⟨heq, -⟩ | ⟨t, output, kind, -, hpure, -, -, heq⟩⟩ :=
    readWith_cases ctx computing active n param e
  · rw [heq, hsame.path]
    exact .refl ctx e.path
  · rw [heq, ← hsame.path]
    exact hadds output.node e' hpure

/-- To read inputs adds pure nodes only. -/
theorem readAllWith_addsPure (params : List String) (e : Emission) :
    ctx.AddsPure e.path (readAllWith ctx computing active n params e).2.path := by
  induction params generalizing e with
  | nil => exact .refl ctx e.path
  | cons param rest ih => exact (readWith_addsPure hadds param e).trans (ih _)

/-- To assign a temporary adds no more than its reads. -/
theorem assignWith_addsPure (block : Nat) (e : Emission) :
    ctx.AddsPure e.path (assignWith ctx computing active n block e).path := by
  rw [assignWith]
  split
  · exact .refl ctx e.path
  · split
    · exact readAllWith_addsPure hadds _ e
    · exact .refl ctx e.path

end Reading

/-- A pure node that is settled is added, or none is. -/
theorem settle_addsPure {ctx : Context} {id : String}
    (hpure : ctx.index.isPure ctx.catalog id = true) (e : Emission) :
    ctx.AddsPure e.path (e.settle ctx id).path := by
  rw [Emission.settle]
  split
  · exact .refl ctx e.path
  · intro id' hid'
    rcases List.mem_cons.1 hid' with rfl | hold
    · exact Or.inr hpure
    · exact Or.inl hold

/-- To compute pure nodes one after the other adds pure nodes only. By induction on
    the nodes. -/
theorem foldl_addsPure {ctx : Context} {computing : String → Emission → Emission}
    (ids : List String)
    (hadds : ∀ id ∈ ids, ∀ e : Emission, ctx.AddsPure e.path (computing id e).path)
    (e : Emission) : ctx.AddsPure e.path (ids.foldl (fun e id => computing id e) e).path := by
  induction ids generalizing e with
  | nil => exact .refl ctx e.path
  | cons id rest ih =>
      exact (hadds id (List.mem_cons_self ..) e).trans
        (ih (fun id' hid' => hadds id' (List.mem_cons_of_mem _ hid')) _)

/-- **A computation adds pure nodes only**: what a pure node depends on is pure. -/
theorem compute_addsPure (ctx : Context) (block : Nat) (active : List String) (id : String)
    (hpure : ctx.index.isPure ctx.catalog id = true) (e : Emission) :
    ctx.AddsPure e.path (compute ctx block active id e).path := by
  rw [compute]
  split
  · exact .refl ctx e.path
  · split
    · exact .refl ctx e.path
    · next idle =>
      split
      · exact .refl ctx e.path
      · next n found =>
        have hsmaller : (unlisted ctx.index.nodeIds (id :: active)).length
            < (unlisted ctx.index.nodeIds active).length :=
          length_unlisted_lt (fun _ h => List.mem_cons_of_mem _ h)
            (Index.mem_nodeIds_of_node? found) idle (List.mem_cons_self ..)
        have hrecursion : ∀ id' (e : Emission), ctx.index.isPure ctx.catalog id' = true →
            ctx.AddsPure e.path (compute ctx block (id :: active) id' e).path :=
          fun id' e hpure' => compute_addsPure ctx block (id :: active) id' hpure' e
        have hfirst := foldl_addsPure (ctx.pureDependencies n) (fun id' hid' e => by
          obtain ⟨d, -, hpure', -⟩ := mem_pureDependencies.1 hid'
          exact hrecursion id' e hpure') e
        exact (hfirst.trans (assignWith_addsPure hrecursion block _)).trans (settle_addsPure hpure _)
termination_by (unlisted ctx.index.nodeIds active).length

theorem computeOnce_addsPure (ctx : Context) (block : Nat) (id : String) (e : Emission)
    (hpure : ctx.index.isPure ctx.catalog id = true) :
    ctx.AddsPure e.path (computeOnce ctx block id e).path :=
  compute_addsPure ctx block [] id hpure e

/-- The statements of a node add nothing, unless it assigns its own value. -/
theorem visitKind_addsPure (ctx : Context) (n : Node) (d : Definition) (kind : NodeKind)
    (operand : String → Operand) (block : Nat) (e : Emission) :
    ctx.AddsPure e.path (visitKind ctx n d kind operand block e).2.path := by
  cases kind with
  | pure kind =>
      show ctx.AddsPure e.path (follow ctx n d block (assignPure ctx n block e)).2.path
      rw [path_follow]
      exact assignWith_addsPure (computeOnce_addsPure ctx block) block e
  | _ => simpa [visitKind] using Context.AddsPure.refl ctx e.path

/-- **A visit adds nothing but pure nodes to the path.** -/
theorem visit_addsPure (ctx : Context) (n : Node) (block : Nat) (e : Emission) :
    ctx.AddsPure e.path (visit ctx n block e).2.path := by
  rw [visit]
  split
  · exact .refl ctx e.path
  · split
    · simpa using Context.AddsPure.refl ctx e.path
    · next d _ _ kind _ =>
      have hread : ctx.AddsPure (e.announce ctx n d kind block).path
          (readInputs ctx n (kind.slots ctx n) block (e.announce ctx n d kind block)).2.path :=
        readAllWith_addsPure (computeOnce_addsPure ctx block) _ _
      rw [path_announce] at hread
      exact hread.trans (visitKind_addsPure ctx n d kind _ block _)

/-! ## Exits -/

/-- A way to a node that is not on the path is a new branch. -/
theorem mem_targets_newBranches {ctx : Context} {n : Node} {d : Definition} {e : Emission}
    {id : String} (hid : id ∈ targets (ctx.leavingBy n d.execOutputs))
    (hnew : id ∉ e.path.latest) : id ∈ targets (newBranches ctx n d e) := by
  obtain ⟨c, hc, rfl⟩ := List.mem_map.1 hid
  refine List.mem_map_of_mem (List.mem_filter.2 ⟨hc, ?_⟩)
  rw [Bool.not_eq_true', ← Bool.not_eq_true, VisitedPath.contains_iff_mem]
  exact hnew

/-- **A visit goes on by every way out** to a node that is not on the path. -/
theorem mem_nodes_visitKind {ctx : Context} {n : Node} {d : Definition} {kind : NodeKind}
    (operand : String → Operand) (block : Nat) {e : Emission} {id : String}
    (hid : id ∈ targets (ctx.waysOut n d kind)) (hnew : id ∉ e.path.latest) :
    id ∈ Visited.nodes (visitKind ctx n d kind operand block e) := by
  cases kind with
  | functionParameter | functionReturn | finish => exact hid
  | sequence =>
      exact (nodes_spread block (newBranches ctx n d e) e) ▸ mem_targets_newBranches hid hnew
  | parallel => exact nodes_visitParallel .. ▸ mem_targets_newBranches hid hnew
  | branch => exact nodes_visitBranch .. ▸ hid
  | forLoop => exact nodes_visitLoop .. ▸ hid
  | switch => exact nodes_writeCases .. ▸ hid
  | _ => exact nodes_goOn .. ▸ hid

/-- A visit has an exit to every successor that is not on the path which it
    leaves. -/
theorem mem_nodes_visit {ctx : Context} {n : Node} {block : Nat} {e : Emission} {id : String}
    (hid : id ∈ ctx.successors n) (hnew : id ∉ (visit ctx n block e).2.path.latest) :
    id ∈ Visited.nodes (visit ctx n block e) := by
  rw [Context.successors] at hid
  rw [visit] at hnew ⊢
  cases hd : ctx.definition? n with
  | none =>
      rw [hd] at hid
      exact absurd hid List.not_mem_nil
  | some d =>
      rw [hd] at hid hnew
      dsimp only at hid hnew ⊢
      cases hkind : NodeKind.ofDefinition? d.id with
      | none =>
          rw [hkind] at hid
          exact nodes_goOn .. ▸ hid
      | some kind =>
          rw [hkind] at hid hnew
          exact mem_nodes_visitKind _ block hid fun hmem =>
            hnew (visitKind_within ctx n d kind _ block _ id hmem)

/-! ## Ways that meet no node twice -/

/-- Control can go on from one node to another. -/
def Context.LeadsTo (ctx : Context) (x y : String) : Prop :=
  ∃ n, ctx.index.node? x = some n ∧ y ∈ ctx.successors n

/-- Control can go on to a node that is not on a path. -/
def Context.LeadsAround (ctx : Context) (path : Trail) (x y : String) : Prop :=
  ctx.LeadsTo x y ∧ y ∉ path.latest

/-- What is reached from a node is the node itself, or is reached from one of
    its successors without coming back to the node. -/
theorem exists_avoiding {r : String → String → Prop} {x y : String} (h : ReflTransGen r x y) :
    y = x ∨ ∃ z, r x z ∧ z ≠ x ∧ ReflTransGen (fun a b => r a b ∧ b ≠ x) z y := by
  induction h with
  | refl => exact Or.inl rfl
  | @tail b c _ hstep ih =>
      by_cases hc : c = x
      · exact Or.inl hc
      · rcases ih with rfl | ⟨z, hz, hne, hchain⟩
        · exact Or.inr ⟨c, hstep, hc, .refl⟩
        · exact Or.inr ⟨z, hz, hne, hchain.tail ⟨hstep, hc⟩⟩

/-- Pure nodes have no successors. -/
def Context.PureEnds (ctx : Context) : Prop :=
  ∀ {x y : String}, ctx.LeadsTo x y → ctx.index.isPure ctx.catalog x = false

section Reach

variable {ctx : Context}

/-- A way around a path and a node goes around the longer path that a visit of
    the node leaves: what the visit has added is pure, and a way comes by no
    pure node. -/
theorem leadsAround_of_addsPure (hends : ctx.PureEnds) {path path' : Trail} {x s y : String}
    (hadds : ctx.AddsPure (path.extend x) path')
    (hy : ctx.index.isPure ctx.catalog y = false) (hs : s ∉ path.latest) (hne : s ≠ x)
    (h : ReflTransGen (fun a b => ctx.LeadsAround path a b ∧ b ≠ x) s y) :
    s ∉ path'.latest ∧ ReflTransGen (ctx.LeadsAround path') s y := by
  have hout : ∀ {z : String}, z ∉ path.latest → z ≠ x →
      ctx.index.isPure ctx.catalog z = false → z ∉ path'.latest := by
    intro z hz hzx hpure hmem
    rcases hadds z hmem with hold | hpure'
    · exact (List.mem_cons.1 hold).elim hzx hz
    · rw [hpure] at hpure'
      exact nomatch hpure'
  induction h using ReflTransGen.head_induction_on with
  | refl => exact ⟨hout hs hne hy, .refl⟩
  | @head a b hstep _ ih =>
      obtain ⟨⟨hleads, hb⟩, hbx⟩ := hstep
      obtain ⟨hb', hchain⟩ := ih hb hbx
      exact ⟨hout hs hne (hends hleads), .head ⟨hleads, hb'⟩ hchain⟩

/-- **Nothing that can be reached is lost.**  The induction is along the
    visits; what can be reached from a step around its path is visited. -/
theorem mem_visits_of_leadsAround (hends : ctx.PureEnds) (stack : List Step) (e : Emission)
    {id : String} {node : Node} (hnode : ctx.index.node? id = some node)
    (hpure : ctx.index.isPure ctx.catalog id = false) :
    ∀ step ∈ stack, step.node ∉ step.path.latest →
      ReflTransGen (ctx.LeadsAround step.path) step.node id →
      ∃ v ∈ visits ctx stack e, v.1.node = id := by
  fun_induction visits ctx stack e with
  | case1 e => exact fun step hstep => absurd hstep List.not_mem_nil
  | case2 e first rest hdone ih =>
      intro step hstep hnew hway
      rcases List.mem_cons.1 hstep with rfl | hrest
      · exact absurd (VisitedPath.contains_iff_mem.1 hdone) hnew
      · exact ih step hrest hnew hway
  | case3 e first rest hnew' hnone ih =>
      intro step hstep hnew hway
      rcases List.mem_cons.1 hstep with rfl | hrest
      · -- a way from a node that is missing has no steps
        rcases hway.cases_head with heq | ⟨z, ⟨⟨n, hn, -⟩, -⟩, -⟩
        · rw [heq, hnode] at hnone
          exact nomatch hnone
        · rw [hn] at hnone
          exact nomatch hnone
      · exact ih step hrest hnew hway
  | case4 e first rest hnew' n hn visited ih =>
      intro step hstep hnew hway
      have hmore : (∃ v ∈ visits ctx (visited.steps ++ rest) visited.2, v.1.node = id) →
          ∃ v ∈ (first, n) :: visits ctx (visited.steps ++ rest) visited.2, v.1.node = id :=
        fun ⟨v, hv, hid⟩ => ⟨v, List.mem_cons_of_mem _ hv, hid⟩
      rcases List.mem_cons.1 hstep with rfl | hrest
      · rcases exists_avoiding hway with rfl | ⟨z, ⟨⟨m, hm, hsuccessor⟩, hz⟩, hne, hchain⟩
        · exact ⟨_, List.mem_cons_self .., rfl⟩
        · obtain rfl : m = n := Option.some.inj (hm.symm.trans hn)
          have hadds := visit_addsPure ctx m step.block
            (e.onPath (step.path.extend step.node))
          obtain ⟨hz', hchain'⟩ := leadsAround_of_addsPure hends hadds hpure hz hne hchain
          obtain ⟨x, hx, rfl⟩ := List.mem_map.1 (mem_nodes_visit hsuccessor hz')
          refine hmore (ih ⟨x.node, visited.2.path, x.block⟩ ?_ hz' hchain')
          exact List.mem_append_left _ (List.mem_map_of_mem hx)
      · exact hmore (ih step (List.mem_append_right _ hrest) hnew hway)

/-- **Nothing else is visited.** -/
theorem visits_sound {P : String → Prop} (hleads : ∀ {x y}, P x → ctx.LeadsTo x y → P y)
    (stack : List Step) (e : Emission) (hstack : ∀ step ∈ stack, P step.node) :
    ∀ v ∈ visits ctx stack e, P v.1.node ∧ ctx.index.node? v.1.node = some v.2 := by
  fun_induction visits ctx stack e with
  | case1 e => exact fun v hv => absurd hv List.not_mem_nil
  | case2 e first rest hdone ih =>
      exact ih fun step hstep => hstack step (List.mem_cons_of_mem _ hstep)
  | case3 e first rest hnew hnone ih =>
      exact ih fun step hstep => hstack step (List.mem_cons_of_mem _ hstep)
  | case4 e first rest hnew n hn visited ih =>
      have hfirst := hstack first (List.mem_cons_self ..)
      intro v hv
      rcases List.mem_cons.1 hv with rfl | hv
      · exact ⟨hfirst, hn⟩
      · refine ih (fun step hstep => ?_) v hv
        rcases List.mem_append.1 hstep with hexit | hrest
        · obtain ⟨x, hx, rfl⟩ := List.mem_map.1 hexit
          have hmem := (visit_exits ctx n first.block _).subset (List.mem_map_of_mem hx)
          exact hleads hfirst ⟨n, hn, hmem⟩
        · exact hstack step (List.mem_cons_of_mem _ hrest)

end Reach

/-! ## Routines -/

/-- Control reaches a node from one of the entries. -/
def Context.Reaches (ctx : Context) (entries : List Node) (id : String) : Prop :=
  ∃ entry ∈ entries, ReflTransGen ctx.LeadsTo entry.id id

/-- Whether a definition, if it is pure, has no output that carries control. -/
def Definition.endsIfPure (d : Definition) : Bool :=
  match NodeKind.ofDefinition? d.id with
  | some (.pure _) => d.execOutputs.isEmpty
  | _ => true

theorem endsIfPure_builtin : Catalog.builtin.definitions.all Definition.endsIfPure = true := by
  decide

theorem Definition.isExecOutput_of_execOutputs {d : Definition} (h : d.execOutputs = [])
    (id : String) : d.isExecOutput id = false := by
  rw [isExecOutput]
  split
  · next p hp =>
    rw [← Bool.not_eq_true]
    intro hexec
    have hmem : p ∈ d.execOutputs := List.mem_filter.2 ⟨List.mem_of_find?_eq_some hp, hexec⟩
    rw [h] at hmem
    exact List.not_mem_nil hmem
  · rfl

/-- Over a catalog like that, control goes on from no pure node. -/
theorem pureEnds_of_endsIfPure (b : Blueprint) {catalog : Catalog} (options : Options)
    (h : catalog.definitions.all Definition.endsIfPure = true) :
    (Context.of b catalog options).PureEnds := by
  rintro x y ⟨n, hn, hy⟩
  rw [← Bool.not_eq_true]
  intro hpure
  obtain ⟨m, d, kind, hm, hd, hkind⟩ := exists_of_isPure hpure
  obtain rfl : m = n := Option.some.inj (hm.symm.trans hn)
  have hends := List.all_eq_true.1 h d (Catalog.mem_of_find? hd)
  rw [Definition.endsIfPure, hkind] at hends
  -- no output carries control, so no connection that leaves the node does
  have hexec := Definition.isExecOutput_of_execOutputs (List.isEmpty_iff.1 hends)
  have hdefinition : (Context.of b catalog options).definition? m = some d := hd
  rw [Context.successors, hdefinition] at hy
  dsimp only at hy
  rw [hkind] at hy
  simp [Context.waysOut, targets, Index.execLeaving, hexec] at hy

/-- A routine starts at its entries, on empty paths. -/
theorem mem_entrySteps {entries : List Node} {e : Emission} {step : Step} :
    step ∈ (entrySteps entries e).1 → step.path = .empty ∧ ∃ entry ∈ entries, step.node = entry.id := by
  induction entries generalizing e with
  | nil => exact fun h => absurd h List.not_mem_nil
  | cons entry rest ih =>
      intro h
      rcases List.mem_cons.1 h with rfl | hrest
      · exact ⟨rfl, entry, List.mem_cons_self .., rfl⟩
      · obtain ⟨hpath, entry', hentry', hnode⟩ := ih hrest
        exact ⟨hpath, entry', List.mem_cons_of_mem _ hentry', hnode⟩

/-- A routine starts at each of its entries. -/
theorem exists_entryStep {entries : List Node} {e : Emission} {entry : Node}
    (h : entry ∈ entries) : ∃ step ∈ (entrySteps entries e).1, step.node = entry.id := by
  induction entries generalizing e with
  | nil => exact absurd h List.not_mem_nil
  | cons first rest ih =>
      rcases List.mem_cons.1 h with rfl | hrest
      · exact ⟨_, List.mem_cons_self .., rfl⟩
      · obtain ⟨step, hstep, hnode⟩ := ih hrest
        exact ⟨step, List.mem_cons_of_mem _ hstep, hnode⟩

/-- **A routine is written for exactly the nodes that control reaches.**  Over
    a catalog whose pure definitions have no output that carries control, a
    routine is its visits, one after the other; and a node that is not pure is
    visited exactly if control reaches it from an entry. -/
theorem visited_iff_reaches (b : Blueprint) (catalog : Catalog) (options : Options)
    (entries : List Node) (findings : Findings)
    (hcatalog : catalog.definitions.all Definition.endsIfPure = true) :
    let ctx := Context.of b catalog options
    let start := entrySteps entries { findings }
    writeRoutine ctx entries findings
        = (visits ctx start.1 start.2).foldl (fun e v => (v.1.visited ctx v.2 e).2) start.2
      ∧ ∀ (id : String) (n : Node), ctx.index.node? id = some n → catalog.isPure n = false →
        ((∃ v ∈ visits ctx start.1 start.2, v.1.node = id ∧ v.2 = n) ↔ ctx.Reaches entries id) := by
  intro ctx start
  refine ⟨walk_eq_foldl_visits ctx start.1 start.2, fun id n hn hpure => ⟨?_, ?_⟩⟩
  · rintro ⟨v, hv, rfl, -⟩
    refine (visits_sound (P := ctx.Reaches entries) ?_ start.1 start.2 ?_ v hv).1
    · rintro x y ⟨entry, hentry, hway⟩ hstep
      exact ⟨entry, hentry, hway.tail hstep⟩
    · intro step hstep
      obtain ⟨-, entry, hentry, hnode⟩ := mem_entrySteps hstep
      exact ⟨entry, hentry, hnode ▸ .refl⟩
  · rintro ⟨entry, hentry, hway⟩
    obtain ⟨step, hstep, hnode⟩ := exists_entryStep (e := { findings }) hentry
    obtain ⟨hpath, -⟩ := mem_entrySteps hstep
    -- the path to an entry is empty, so every way goes around it
    have haround : ReflTransGen (ctx.LeadsAround step.path) step.node id := by
      rw [hnode, hpath]
      exact ReflTransGen.mono (fun _ _ hleads => ⟨hleads, List.not_mem_nil⟩) _ _ hway
    have hpure' : ctx.index.isPure ctx.catalog id = false := by
      rw [Index.isPure, hn]
      exact hpure
    obtain ⟨v, hv, hid⟩ := mem_visits_of_leadsAround (pureEnds_of_endsIfPure b options hcatalog)
      start.1 start.2 hn hpure' step hstep (by rw [hpath]; exact List.not_mem_nil) haround
    obtain ⟨-, hfound⟩ := visits_sound (P := fun _ => True) (fun _ _ => trivial) start.1 start.2
      (fun _ _ => trivial) v hv
    exact ⟨v, hv, hid, Option.some.inj (hfound.symm.trans (hid ▸ hn))⟩

/-! ### A ring of control, with a sum that joins the path on the way -/

namespace PrintedRing

def start : Node := ⟨"start", "function_start", "", {}, [], []⟩

def first : Node := ⟨"first", "print", "", {}, [], []⟩

def fork : Node := ⟨"fork", "sequence", "", {}, [], []⟩

def second : Node := ⟨"second", "print", "", {}, [], []⟩

def sum : Node := ⟨"sum", "add_numbers", "", {}, [], []⟩

def stray : Node := ⟨"stray", "print", "", {}, [], []⟩

def blueprint : Blueprint where
  kind := .function
  nodes := [start, first, fork, second, sum, stray]
  connections := [⟨"c1", ⟨"start", "exec"⟩, ⟨"first", "exec"⟩⟩,
    ⟨"c2", ⟨"first", "exec"⟩, ⟨"fork", "exec"⟩⟩, ⟨"c3", ⟨"fork", "exec_1"⟩, ⟨"first", "exec"⟩⟩,
    ⟨"c4", ⟨"fork", "exec_2"⟩, ⟨"second", "exec"⟩⟩, ⟨"c5", ⟨"stray", "exec"⟩, ⟨"second", "exec"⟩⟩,
    ⟨"c6", ⟨"sum", "result"⟩, ⟨"first", "value"⟩⟩, ⟨"c7", ⟨"sum", "result"⟩, ⟨"second", "value"⟩⟩]

def context : Context := .of blueprint .builtin {}

/-- The nodes on the way and what they lead to, by evaluation. -/
theorem way_to_second :
    (context.index.node? "start" = some start ∧ "first" ∈ context.successors start)
      ∧ (context.index.node? "first" = some first ∧ "fork" ∈ context.successors first)
      ∧ (context.index.node? "fork" = some fork ∧ "second" ∈ context.successors fork)
      ∧ (context.index.node? "second" = some second ∧ Catalog.isPure .builtin second = false)
      ∧ context.index.node? "stray" = some stray ∧ Catalog.isPure .builtin stray = false := by
  decide +kernel

/-- What is not beside the ring does not lead there. -/
theorem successors_ne_stray : blueprint.nodes.all (fun n => n == stray
    || (context.successors n).all (· != "stray")) = true := by
  decide +kernel

/-- Nothing leads to the stray node. -/
theorem not_reaches_stray : ¬context.Reaches [start] "stray" := by
  rintro ⟨entry, hentry, hway⟩
  obtain rfl := List.mem_singleton.1 hentry
  suffices h : ∀ {id}, ReflTransGen context.LeadsTo start.id id → id ≠ "stray" from h hway rfl
  intro id hway
  induction hway with
  | refl => decide
  | @tail x y _ hstep hx =>
      obtain ⟨n, hn, hy⟩ := hstep
      have hid : n.id = x := Index.id_of_node?_build hn
      have hall := List.all_eq_true.1 successors_ne_stray n (Index.mem_of_node?_build hn)
      rcases Bool.or_eq_true_iff.1 hall with heq | hnone
      · obtain rfl := eq_of_beq heq
        exact absurd hid.symm hx
      · exact bne_iff_ne.1 (List.all_eq_true.1 hnone y hy)

/-- The print behind the ring is visited, and the one beside it is not. -/
theorem second_visited_and_stray_not :
    Catalog.builtin.definitions.all Definition.endsIfPure = true
      ∧ (∃ v ∈ visits context (entrySteps [start] { findings := {} }).1
          (entrySteps [start] { findings := {} }).2, v.1.node = "second" ∧ v.2 = second)
      ∧ ¬∃ v ∈ visits context (entrySteps [start] { findings := {} }).1
          (entrySteps [start] { findings := {} }).2, v.1.node = "stray" ∧ v.2 = stray := by
  obtain ⟨⟨hstart, hone⟩, ⟨hfirst, htwo⟩, ⟨hfork, hthree⟩, ⟨hsecond, hpure⟩, hstray, hpure'⟩ :=
    way_to_second
  obtain ⟨-, hiff⟩ := visited_iff_reaches blueprint .builtin {} [start] {} endsIfPure_builtin
  refine ⟨endsIfPure_builtin, (hiff "second" second hsecond hpure).2 ?_, fun hvisited => ?_⟩
  · have hway : ReflTransGen context.LeadsTo start.id "fork" :=
      (ReflTransGen.single ⟨start, hstart, hone⟩).tail ⟨first, hfirst, htwo⟩
    exact ⟨start, List.mem_cons_self .., hway.tail ⟨fork, hfork, hthree⟩⟩
  · exact not_reaches_stray ((hiff "stray" stray hstray hpure').1 hvisited)

end PrintedRing

end Blueprints
