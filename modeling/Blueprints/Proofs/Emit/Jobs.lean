import Mathlib.Logic.Function.Iterate
import Blueprints.Proofs.Emit.Running

/-! # Writing, one job at a time

    Walking, reading and computing are recursive functions.  Here the same
    work is done by a machine with a stack of *jobs*.  A turn of the machine
    does the topmost job, which may put others in its place
    (`Writing.next`).  A turn does not recurse, so nothing in the definition
    of the machine makes it end.

    It ends all the same, from every stack of jobs, and leaves what the
    recursive functions leave (`Writing.exists_end`).  The heart is
    `does_compute`: to compute a pure node is a run of the machine, by
    induction on the number of nodes that are not being computed yet. -/

namespace Blueprints

/-- What is left to do while a routine is written.  The list of nodes that a
    read or a computation carries holds those that are being computed. -/
inductive Job where
  | visit (step : Step)
  | read (block : Nat) (active : List String) (n : Node) (param : String)
  | compute (block : Nat) (active : List String) (id : String)
  /-- Assigns the temporary of a pure node whose inputs have been read. -/
  | assign (block : Nat) (n : Node) (d : Definition) (kind : PureKind) (name type : String)
  | settle (id : String)
  | endRead
  /-- Writes the statement of a node whose inputs have been read, and goes
      on from there. -/
  | leave (block : Nat) (n : Node) (d : Definition) (kind : NodeKind)

/-- The operands of inputs of a node. -/
def Context.operands (ctx : Context) (n : Node) (params : List String) : String → Operand :=
  operandOf (params.map fun param => (param, (ctx.source n param).operand))

/-- The pure node that has to be computed before an input can be read. -/
def Context.missing? (ctx : Context) (active : List String) (n : Node) (param : String)
    (e : Emission) : Option String :=
  match ctx.source n param with
  | .temporary _ output _ =>
    if ctx.index.isPure ctx.catalog output.node && !e.isCurrent ctx output.node
        && !active.contains output.node then some output.node
    else none
  | _ => none

namespace Job

/-- Computes a pure node; a computation that is not part of another one ends
    the read that it is for. -/
def computing (block : Nat) (active : List String) (id : String) : List Job :=
  compute block active id :: if active.isEmpty then [endRead] else []

/-- Assigns the temporary of a pure node. -/
def assigning (ctx : Context) (block : Nat) (active : List String) (n : Node) : List Job :=
  match ctx.definition? n with
  | none => []
  | some d =>
    match NodeKind.ofDefinition? d.id, ctx.result? n d with
    | some (.pure kind), some (name, type) =>
      kind.slots.map (read block active n) ++ [assign block n d kind name type]
    | _, _ => []

/-- What a visit of a node of a kind has to do. -/
def visiting (ctx : Context) (block : Nat) (n : Node) (d : Definition) (kind : NodeKind) :
    List Job :=
  (kind.slots ctx n).map (read block [] n)
    ++ (match kind with
        | .pure _ => assigning ctx block [] n
        | _ => [])
    ++ [leave block n d kind]

/-- What comes after a visit. -/
def following (v : Visited) : List Job × Emission := (v.steps.map visit, v.2)

/-- Does a job: the jobs that come in its place, and what it writes. -/
def perform (ctx : Context) : Job → Emission → List Job × Emission
  | visit step, e =>
    if step.path.contains step.node then ([], e)
    else
      match ctx.index.node? step.node with
      | none => ([], e)
      | some n =>
        match ctx.definition? n with
        | none => following (step.visited ctx n e)
        | some d =>
          match NodeKind.ofDefinition? d.id with
          | none => following (step.visited ctx n e)
          | some kind =>
            (visiting ctx step.block n d kind,
              (e.onPath (step.path.extend step.node)).announce ctx n d kind step.block)
  | read block active n param, e =>
    -- all that a read does apart from computing
    let noted := (readWith ctx (fun _ e => e) active n param e).2
    match ctx.missing? active n param e with
    | some id => (computing block active id, noted)
    | none => ([], noted)
  | compute block active id, e =>
    if e.isCurrent ctx id then ([], e)
    else if id ∈ active then
      ([], e.report .shapeAmbiguity id "data cycle: value is read before it is computed")
    else
      match ctx.index.node? id with
      | none => ([], e)
      | some n =>
        ((ctx.pureDependencies n).map (compute block (id :: active))
          ++ assigning ctx block (id :: active) n ++ [settle id], e)
  | assign block n d kind name type, e =>
    ([], (e.declare name type).emit block
      (.assign name (kind.expr ctx n d (ctx.operands n kind.slots))))
  | settle id, e => ([], e.settle ctx id)
  | endRead, e => ([], e.endRead)
  | leave block n d kind, e =>
    match kind with
    | .pure _ => following (follow ctx n d block e)
    | kind => following (visitKind ctx n d kind (ctx.operands n (kind.slots ctx n)) block e)

end Job

/-- A routine as it is being written, with what is left to do. -/
structure Writing where
  jobs : List Job
  emission : Emission

/-- One turn of the machine: the topmost job is done. -/
def Writing.next (ctx : Context) (w : Writing) : Writing :=
  match w.jobs with
  | [] => w
  | job :: rest => ⟨(job.perform ctx w.emission).1 ++ rest, (job.perform ctx w.emission).2⟩

/-! ## Runs -/

/-- The machine comes from some jobs to others, whatever lies below them. -/
def Passes (ctx : Context) (jobs : List Job) (e : Emission) (jobs' : List Job) (e' : Emission) :
    Prop :=
  ∃ k, ∀ rest, (Writing.next ctx)^[k] ⟨jobs ++ rest, e⟩ = ⟨jobs' ++ rest, e'⟩

/-- The machine does some jobs. -/
def Does (ctx : Context) (jobs : List Job) (e e' : Emission) : Prop := Passes ctx jobs e [] e'

section Running

variable {ctx : Context} {jobs jobs' jobs'' : List Job} {e e' e'' : Emission}

theorem Passes.refl (ctx : Context) (jobs : List Job) (e : Emission) :
    Passes ctx jobs e jobs e :=
  ⟨0, fun _ => rfl⟩

/-- Runs can be joined. -/
theorem Passes.trans (h : Passes ctx jobs e jobs' e') (h' : Passes ctx jobs' e' jobs'' e'') :
    Passes ctx jobs e jobs'' e'' := by
  obtain ⟨k, hk⟩ := h
  obtain ⟨k', hk'⟩ := h'
  refine ⟨k' + k, ?_⟩
  intro rest
  rw [Function.iterate_add_apply, hk, hk']

/-- To do a job is one turn. -/
theorem passes_perform (ctx : Context) (job : Job) (e : Emission) :
    Passes ctx [job] e (job.perform ctx e).1 (job.perform ctx e).2 :=
  ⟨1, fun _ => rfl⟩

/-- A run does not look at the jobs below it. -/
theorem Passes.below (h : Passes ctx jobs e jobs' e') (others : List Job) :
    Passes ctx (jobs ++ others) e (jobs' ++ others) e' := by
  obtain ⟨k, hk⟩ := h
  refine ⟨k, ?_⟩
  intro rest
  rw [List.append_assoc, hk, List.append_assoc]

theorem Does.nil (ctx : Context) (e : Emission) : Does ctx [] e e := .refl ctx [] e

theorem Does.append (h : Does ctx jobs e e') (h' : Does ctx jobs' e' e'') :
    Does ctx (jobs ++ jobs') e e'' :=
  (h.below jobs').trans h'

/-- To do a job is to do those that come in its place. -/
theorem Does.job {job : Job} (h : Does ctx (job.perform ctx e).1 (job.perform ctx e).2 e') :
    Does ctx [job] e e' :=
  (passes_perform ctx job e).trans h

theorem Does.cons {job : Job} (h : Does ctx [job] e e') (h' : Does ctx jobs e' e'') :
    Does ctx (job :: jobs) e e'' :=
  h.append h'

/-- A job that leaves nothing to do is done at once. -/
theorem does_of_perform {job : Job} (h : job.perform ctx e = ([], e')) : Does ctx [job] e e' := by
  apply Does.job
  rw [h]
  exact .nil ctx e'

/-- Equal jobs for each member of a list are a fold. -/
theorem does_map {α : Type} {job : α → Job} {f : Emission → α → Emission}
    (h : ∀ a e, Does ctx [job a] e (f e a)) (as : List α) (e : Emission) :
    Does ctx (as.map job) e (as.foldl f e) := by
  induction as generalizing e with
  | nil => exact .nil ctx e
  | cons a as ih => exact (h a e).cons (ih _)

end Running

/-! ## Reading -/

/-- A look at an input that computes nothing changes no statement. -/
theorem agrees_noted (ctx : Context) (active : List String) (n : Node) (param : String)
    (e : Emission) : Agrees e (readWith ctx (fun _ e => e) active n param e).2 := by
  obtain ⟨e', hagrees, ⟨heq, -⟩ | ⟨-, -, -, -, -, -, -, heq⟩⟩ :=
    readWith_cases ctx (fun _ e => e) active n param e
  · exact heq ▸ hagrees
  · exact heq ▸ hagrees

section Reading

variable {ctx : Context} {block : Nat} {active : List String} {n : Node}
  {computing : String → Emission → Emission}

/-- A read computes what is missing, after all else that it does. -/
theorem snd_readWith (param : String) (e : Emission) :
    (readWith ctx computing active n param e).2
      = match ctx.missing? active n param e with
        | some id => computing id (readWith ctx (fun _ e => e) active n param e).2
        | none => (readWith ctx (fun _ e => e) active n param e).2 := by
  simp only [readWith, Context.missing?]
  cases ctx.source n param with
  | temporary name output kind =>
      have hagrees : Agrees e ((e.reportFanIn ctx n param).declare name kind.typeName) :=
        (agrees_reportFanIn e ctx n param).trans (agrees_declare _ name kind.typeName)
      dsimp only
      rw [hagrees.isCurrent ctx output.node]
      split
      · rfl
      · rfl
  | _ => rfl

variable (hcomputing : ∀ id e, Does ctx (Job.computing block active id) e (computing id e))

include hcomputing

/-- To read an input is a run, if computing its producer is. -/
theorem does_read (param : String) (e : Emission) :
    Does ctx [.read block active n param] e (readWith ctx computing active n param e).2 := by
  apply Does.job
  rw [snd_readWith, Job.perform]
  cases ctx.missing? active n param e with
  | none => exact .nil ctx _
  | some id => exact hcomputing id _

/-- Inputs are read one after the other. By induction on the inputs. -/
theorem does_reads (params : List String) (e : Emission) :
    Does ctx (params.map (.read block active n)) e
      (readAllWith ctx computing active n params e).2 := by
  induction params generalizing e with
  | nil => exact .nil ctx e
  | cons param rest ih => exact (does_read hcomputing param e).cons (ih _)

/-- To assign a temporary is to read the inputs and to write one line. -/
theorem does_assigning (e : Emission) :
    Does ctx (Job.assigning ctx block active n) e
      (assignWith ctx computing active n block e) := by
  rw [Job.assigning, assignWith]
  cases ctx.definition? n with
  | none => exact .nil ctx e
  | some d =>
      dsimp only
      cases NodeKind.ofDefinition? d.id with
      | none => exact .nil ctx e
      | some kind =>
          cases kind with
          | pure kind =>
              cases ctx.result? n d with
              | none => exact .nil ctx e
              | some result =>
                  obtain ⟨name, type⟩ := result
                  dsimp only
                  refine (does_reads hcomputing kind.slots e).append (does_of_perform ?_)
                  rw [Job.perform, Context.operands, fst_readAllWith]
          | _ => exact .nil ctx e

end Reading

/-! ## Computing -/

/-- **The machine computes as the recursion does.** -/
theorem does_compute (ctx : Context) (block : Nat) (active : List String) (id : String)
    (e : Emission) : Does ctx [.compute block active id] e (compute ctx block active id e) := by
  apply Does.job
  rw [Job.perform, compute]
  by_cases hcur : e.isCurrent ctx id = true
  · rw [if_pos hcur, if_pos hcur]
    exact .nil ctx e
  · rw [if_neg hcur, if_neg hcur]
    by_cases hidle : id ∈ active
    · rw [if_pos hidle, dif_pos hidle]
      exact .nil ctx _
    · rw [if_neg hidle, dif_neg hidle]
      cases hn : ctx.index.node? id with
      | none => exact .nil ctx e
      | some n =>
          have hsmaller : (unlisted ctx.index.nodeIds (id :: active)).length
              < (unlisted ctx.index.nodeIds active).length :=
            length_unlisted_lt (fun _ h => List.mem_cons_of_mem _ h)
              (Index.mem_nodeIds_of_node? hn) hidle (List.mem_cons_self ..)
          have hrecursion : ∀ id' e, Does ctx [.compute block (id :: active) id'] e
              (compute ctx block (id :: active) id' e) :=
            fun id' e => does_compute ctx block (id :: active) id' e
          -- inside a computation no read is ended
          have hinside : ∀ id' e, Does ctx (Job.computing block (id :: active) id') e
              (compute ctx block (id :: active) id' e) := hrecursion
          have hfirst := does_map (fun id' e => hrecursion id' e) (ctx.pureDependencies n) e
          exact (hfirst.append (does_assigning hinside _)).append (does_of_perform rfl)
termination_by (unlisted ctx.index.nodeIds active).length

/-- The computation that a way to be active asks for. -/
def computeWithin (ctx : Context) (block : Nat) (active : List String) (id : String)
    (e : Emission) : Emission :=
  if active.isEmpty then computeOnce ctx block id e else compute ctx block active id e

/-- A computation is a run, be it part of another one or not. -/
theorem does_computing (ctx : Context) (block : Nat) (active : List String) (id : String)
    (e : Emission) :
    Does ctx (Job.computing block active id) e (computeWithin ctx block active id e) := by
  rw [computeWithin, Job.computing]
  cases active with
  | nil => exact (does_compute ctx block [] id e).cons (does_of_perform rfl)
  | cons first rest => exact does_compute ctx block (first :: rest) id e

/-- A computation that is for a read of its own ends that read. -/
theorem does_computeOnce (ctx : Context) (block : Nat) (id : String) (e : Emission) :
    Does ctx (Job.computing block [] id) e (computeOnce ctx block id e) :=
  does_computing ctx block [] id e

/-! ## Visiting -/

/-- A node that is on the path, or missing, is not visited. -/
theorem perform_visit_of_done {ctx : Context} {step : Step}
    (hdone : step.path.contains step.node = true ∨ ctx.index.node? step.node = none)
    (e : Emission) : (Job.visit step).perform ctx e = ([], e) := by
  rw [Job.perform]
  by_cases hmem : step.path.contains step.node = true
  · rw [if_pos hmem]
  · rw [if_neg hmem, hdone.resolve_left hmem]

/-- A node without a kind is visited at once, any other one has its inputs
    read first. -/
theorem perform_visit_of_new {ctx : Context} {step : Step} {n : Node}
    (hnew : ¬step.path.contains step.node = true) (hn : ctx.index.node? step.node = some n)
    (e : Emission) :
    (ctx.catalog.kind? n = none
        ∧ (Job.visit step).perform ctx e = Job.following (step.visited ctx n e))
      ∨ ∃ d kind, ctx.definition? n = some d ∧ NodeKind.ofDefinition? d.id = some kind
        ∧ (Job.visit step).perform ctx e = (Job.visiting ctx step.block n d kind,
          (e.onPath (step.path.extend step.node)).announce ctx n d kind step.block) := by
  rw [Job.perform, if_neg hnew, hn]
  dsimp only
  cases hd : ctx.definition? n with
  | none =>
      refine Or.inl ⟨?_, rfl⟩
      rw [Context.definition?] at hd
      rw [Catalog.kind?, hd]
  | some d =>
      dsimp only
      cases hkind : NodeKind.ofDefinition? d.id with
      | none =>
          refine Or.inl ⟨?_, rfl⟩
          rw [Context.definition?] at hd
          rw [Catalog.kind?, hd]
          exact hkind
      | some kind => exact Or.inr ⟨d, kind, rfl, hkind, rfl⟩

/-- What is left of a visit when its inputs have been read. -/
theorem leave_eq {ctx : Context} {block : Nat} {n : Node} {d : Definition} {kind : NodeKind}
    {e : Emission} :
    (Job.leave block n d kind).perform ctx (ownValue ctx n kind block e)
      = Job.following (visitKind ctx n d kind (ctx.operands n (kind.slots ctx n)) block e) := by
  cases kind with
  | _ => rfl

/-- **The machine visits as the recursion does**, and comes to the exits of
    the visit. -/
theorem passes_visit {ctx : Context} {step : Step} {n : Node}
    (hnew : ¬step.path.contains step.node = true) (hn : ctx.index.node? step.node = some n)
    (e : Emission) :
    Passes ctx [.visit step] e (Job.following (step.visited ctx n e)).1
      (Job.following (step.visited ctx n e)).2 := by
  refine (passes_perform ctx (.visit step) e).trans ?_
  rcases perform_visit_of_new hnew hn e with ⟨-, hperform⟩ | ⟨d, kind, hd, hkind, hperform⟩
  · rw [hperform]
    exact .refl ctx _ _
  · have hvisit : step.visited ctx n e
        = visitKind ctx n d kind
          (operandOf (readInputs ctx n (kind.slots ctx n) step.block
            ((e.onPath (step.path.extend step.node)).announce ctx n d kind step.block)).1)
          step.block (readInputs ctx n (kind.slots ctx n) step.block
            ((e.onPath (step.path.extend step.node)).announce ctx n d kind step.block)).2 := by
      rw [Step.visited, visit, hd]
      dsimp only
      rw [hkind]
    rw [hperform, hvisit, readInputs, fst_readAllWith, ← Context.operands, ← leave_eq]
    have hread := does_reads (n := n) (does_computeOnce ctx step.block) (kind.slots ctx n)
      ((e.onPath (step.path.extend step.node)).announce ctx n d kind step.block)
    refine (hread.below _ |>.below _).trans ?_
    refine Passes.trans ?_ (passes_perform ctx (.leave step.block n d kind) _)
    cases kind with
    | pure kind => exact (does_assigning (does_computeOnce ctx step.block) _).below _
    | _ => exact .refl ctx _ _

/-- **The machine walks as the recursion does.** -/
theorem does_walk (ctx : Context) (stack : List Step) (e : Emission) :
    Does ctx (stack.map .visit) e (walk ctx stack e) := by
  fun_induction walk ctx stack e with
  | case1 e => exact .nil ctx e
  | case2 e step rest hdone ih =>
      exact Does.cons (does_of_perform (perform_visit_of_done (Or.inl hdone) e)) ih
  | case3 e step rest hnew hnone ih =>
      exact Does.cons (does_of_perform (perform_visit_of_done (Or.inr hnone) e)) ih
  | case4 e step rest hnew n hn visited ih =>
      rw [List.map_append] at ih
      exact ((passes_visit hnew hn e).below (rest.map .visit)).trans ih

/-! ## The jobs that come in the place of a job -/

section Coming

variable {ctx : Context} {block : Nat} {active : List String} {n : Node} {job : Job}

/-- A computation begins with its node and may end a read. -/
theorem mem_computing {id : String} (h : job ∈ Job.computing block active id) :
    job = .compute block active id ∨ job = .endRead := by
  rcases List.mem_cons.1 h with rfl | hend
  · exact Or.inl rfl
  · split at hend
    · exact Or.inr (List.mem_singleton.1 hend)
    · exact absurd hend List.not_mem_nil

/-- An assignment is made of reads and of one line, as its node is looked up. -/
theorem mem_assigning (h : job ∈ Job.assigning ctx block active n) :
    (∃ param, job = .read block active n param)
      ∨ ∃ d kind name type, ctx.definition? n = some d
        ∧ NodeKind.ofDefinition? d.id = some (.pure kind) ∧ ctx.result? n d = some (name, type)
        ∧ job = .assign block n d kind name type := by
  rw [Job.assigning] at h
  split at h
  · exact absurd h List.not_mem_nil
  · next d hd =>
    split at h
    · next kind name type hkind hresult =>
      rcases List.mem_append.1 h with hread | hassign
      · obtain ⟨param, -, rfl⟩ := List.mem_map.1 hread
        exact Or.inl ⟨param, rfl⟩
      · exact Or.inr ⟨d, kind, name, type, hd, hkind, hresult, List.mem_singleton.1 hassign⟩
    · exact absurd h List.not_mem_nil

/-- A visit is made of reads, of the assignment of a pure node, and of its end. -/
theorem mem_visiting {d : Definition} {kind : NodeKind}
    (h : job ∈ Job.visiting ctx block n d kind) :
    (∃ param, job = .read block [] n param) ∨ job ∈ Job.assigning ctx block [] n
      ∨ job = .leave block n d kind := by
  rcases List.mem_append.1 h with hinputs | hleave
  · rcases List.mem_append.1 hinputs with hread | hassign
    · obtain ⟨param, -, rfl⟩ := List.mem_map.1 hread
      exact Or.inl ⟨param, rfl⟩
    · split at hassign
      · exact Or.inr (Or.inl hassign)
      · exact absurd hassign List.not_mem_nil
  · exact Or.inr (Or.inr (List.mem_singleton.1 hleave))

/-- What follows a visit are visits on the path that it has left. -/
theorem mem_following {v : Visited} (h : job ∈ (Job.following v).1) :
    ∃ x ∈ v.1, job = .visit ⟨x.node, v.2.path, x.block⟩ := by
  obtain ⟨step, hstep, rfl⟩ := List.mem_map.1 h
  obtain ⟨x, hx, rfl⟩ := List.mem_map.1 hstep
  exact ⟨x, hx, rfl⟩

end Coming

/-- A temporary is assigned as it has been looked up, and so is the node that
    is left. -/
def Job.Regular (ctx : Context) : Job → Prop
  | .assign _ n d kind name type =>
    ctx.definition? n = some d ∧ NodeKind.ofDefinition? d.id = some (.pure kind)
      ∧ ctx.result? n d = some (name, type)
  | .leave _ n d kind =>
    (∃ id, ctx.index.node? id = some n) ∧ ctx.definition? n = some d
      ∧ NodeKind.ofDefinition? d.id = some kind
  | _ => True

section Regular

variable {ctx : Context} {job : Job}

/-- The line of an assignment is looked up from its own node. -/
theorem regular_assigning {block : Nat} {active : List String} {n : Node}
    (h : job ∈ Job.assigning ctx block active n) : job.Regular ctx := by
  rcases mem_assigning h with ⟨param, rfl⟩ | ⟨d, kind, name, type, hd, hkind, hresult, rfl⟩
  · trivial
  · exact ⟨hd, hkind, hresult⟩

/-- **What comes in the place of a job is regular.** -/
theorem regular_perform (ctx : Context) (job : Job) (e : Emission) :
    ∀ job' ∈ (job.perform ctx e).1, job'.Regular ctx := by
  intro job' hjob'
  cases job with
  | visit step =>
      by_cases hdone : step.path.contains step.node = true ∨ ctx.index.node? step.node = none
      · rw [perform_visit_of_done hdone] at hjob'
        exact absurd hjob' List.not_mem_nil
      · obtain ⟨hnew, hfound⟩ := not_or.1 hdone
        obtain ⟨n, hn⟩ := Option.ne_none_iff_exists'.1 hfound
        rcases perform_visit_of_new hnew hn e with ⟨-, hperform⟩ | ⟨d, kind, hd, hkind, hperform⟩
        · rw [hperform] at hjob'
          obtain ⟨x, -, rfl⟩ := mem_following hjob'
          trivial
        · rw [hperform] at hjob'
          rcases mem_visiting hjob' with ⟨param, rfl⟩ | hassign | rfl
          · trivial
          · exact regular_assigning hassign
          · exact ⟨⟨step.node, hn⟩, hd, hkind⟩
  | read block active n param =>
      rw [Job.perform] at hjob'
      cases hmissing : ctx.missing? active n param e with
      | none =>
          rw [hmissing] at hjob'
          exact absurd hjob' List.not_mem_nil
      | some id =>
          rw [hmissing] at hjob'
          rcases mem_computing hjob' with rfl | rfl
          · trivial
          · trivial
  | compute block active id =>
      rw [Job.perform] at hjob'
      split at hjob'
      · exact absurd hjob' List.not_mem_nil
      · split at hjob'
        · exact absurd hjob' List.not_mem_nil
        · split at hjob'
          · exact absurd hjob' List.not_mem_nil
          · rcases List.mem_append.1 hjob' with hbefore | hsettle
            · rcases List.mem_append.1 hbefore with hdependency | hassign
              · obtain ⟨id', -, rfl⟩ := List.mem_map.1 hdependency
                trivial
              · exact regular_assigning hassign
            · obtain rfl := List.mem_singleton.1 hsettle
              trivial
  | leave block n d kind =>
      cases kind with
      | _ =>
          obtain ⟨x, -, rfl⟩ := mem_following hjob'
          trivial
  | assign block n d kind name type => exact absurd hjob' List.not_mem_nil
  | settle id => exact absurd hjob' List.not_mem_nil
  | endRead => exact absurd hjob' List.not_mem_nil

end Regular

/-- The node that a job is about has a property. -/
def Job.Within (P : Node → Prop) : Job → Prop
  | .read _ _ n _ | .assign _ n .. | .leave _ n .. => P n
  | _ => True

section Within

variable {ctx : Context} {P : Node → Prop} {job : Job}

/-- An assignment is about its own node. -/
theorem within_assigning {block : Nat} {active : List String} {n : Node} (hn : P n)
    (h : job ∈ Job.assigning ctx block active n) : job.Within P := by
  rcases mem_assigning h with ⟨param, rfl⟩ | ⟨d, kind, name, type, -, -, -, rfl⟩
  · exact hn
  · exact hn

/-- **What comes in the place of a job is about nodes that the index has.** -/
theorem within_perform (hindex : ∀ id n, ctx.index.node? id = some n → P n) (job : Job)
    (e : Emission) : ∀ job' ∈ (job.perform ctx e).1, job'.Within P := by
  intro job' hjob'
  cases job with
  | visit step =>
      by_cases hdone : step.path.contains step.node = true ∨ ctx.index.node? step.node = none
      · rw [perform_visit_of_done hdone] at hjob'
        exact absurd hjob' List.not_mem_nil
      · obtain ⟨hnew, hfound⟩ := not_or.1 hdone
        obtain ⟨n, hn⟩ := Option.ne_none_iff_exists'.1 hfound
        rcases perform_visit_of_new hnew hn e with ⟨-, hperform⟩ | ⟨d, kind, -, -, hperform⟩
        · rw [hperform] at hjob'
          obtain ⟨x, -, rfl⟩ := mem_following hjob'
          trivial
        · rw [hperform] at hjob'
          rcases mem_visiting hjob' with ⟨param, rfl⟩ | hassign | rfl
          · exact hindex step.node n hn
          · exact within_assigning (hindex step.node n hn) hassign
          · exact hindex step.node n hn
  | read block active n param =>
      rw [Job.perform] at hjob'
      cases hmissing : ctx.missing? active n param e with
      | none =>
          rw [hmissing] at hjob'
          exact absurd hjob' List.not_mem_nil
      | some id =>
          rw [hmissing] at hjob'
          rcases mem_computing hjob' with rfl | rfl
          · trivial
          · trivial
  | compute block active id =>
      rw [Job.perform] at hjob'
      split at hjob'
      · exact absurd hjob' List.not_mem_nil
      · split at hjob'
        · exact absurd hjob' List.not_mem_nil
        · split at hjob'
          · exact absurd hjob' List.not_mem_nil
          · next n hn =>
            rcases List.mem_append.1 hjob' with hbefore | hsettle
            · rcases List.mem_append.1 hbefore with hdependency | hassign
              · obtain ⟨id', -, rfl⟩ := List.mem_map.1 hdependency
                trivial
              · exact within_assigning (hindex id n hn) hassign
            · obtain rfl := List.mem_singleton.1 hsettle
              trivial
  | leave block n d kind =>
      cases kind with
      | _ =>
          obtain ⟨x, -, rfl⟩ := mem_following hjob'
          trivial
  | assign block n d kind name type => exact absurd hjob' List.not_mem_nil
  | settle id => exact absurd hjob' List.not_mem_nil
  | endRead => exact absurd hjob' List.not_mem_nil

end Within

/-! ## The end -/

/-- What a job leaves once it is done with all that comes in its place, by
    the recursive functions. -/
def Job.outcome (ctx : Context) : Job → Emission → Emission
  | .visit step, e => walk ctx [step] e
  | .read block active n param, e =>
    (readWith ctx (computeWithin ctx block active) active n param e).2
  | .compute block active id, e => Blueprints.compute ctx block active id e
  | .leave block n d kind, e =>
    let v := match kind with
      | .pure _ => follow ctx n d block e
      | kind => visitKind ctx n d kind (ctx.operands n (kind.slots ctx n)) block e
    walk ctx v.steps v.2
  | job, e => (job.perform ctx e).2

/-- **A job is done by a run**, with the outcome that the recursive functions
    give. -/
theorem does_job (ctx : Context) (job : Job) (e : Emission) :
    Does ctx [job] e (job.outcome ctx e) := by
  cases job with
  | visit step => exact does_walk ctx [step] e
  | read block active n param => exact does_read (does_computing ctx block active) param e
  | compute block active id => exact does_compute ctx block active id e
  | leave block n d kind =>
      apply Does.job
      cases kind with
      | _ => exact does_walk ctx _ _
  | _ => exact does_of_perform rfl

/-- What jobs leave, one after the other. -/
def Writing.outcome (ctx : Context) (w : Writing) : Emission :=
  w.jobs.foldl (fun e job => job.outcome ctx e) w.emission

/-- Jobs one after the other are done by a run, each from what the last one has left. -/
theorem does_jobs (ctx : Context) (jobs : List Job) (e : Emission) :
    Does ctx jobs e (jobs.foldl (fun e job => job.outcome ctx e) e) := by
  induction jobs generalizing e with
  | nil => exact .nil ctx e
  | cons job rest ih => exact (does_job ctx job e).cons (ih _)

/-- **The machine ends**, whatever is left to do, and leaves what the
    recursive functions leave. -/
theorem Writing.exists_end (ctx : Context) (w : Writing) :
    ∃ k, (Writing.next ctx)^[k] w = ⟨[], w.outcome ctx⟩ := by
  obtain ⟨k, hk⟩ := does_jobs ctx w.jobs w.emission
  refine ⟨k, ?_⟩
  have hempty := hk []
  rw [List.append_nil] at hempty
  exact hempty

/-! ## Coming to a job -/

/-- A run comes to a job: it lies on top at some turn. -/
def Writing.Comes (ctx : Context) (w : Writing) (job : Job) : Prop :=
  ∃ k rest e, (Writing.next ctx)^[k] w = ⟨job :: rest, e⟩

namespace Writing

variable {ctx : Context} {w : Writing} {job job' : Job} {rest : List Job} {e : Emission}

/-- A machine with nothing to do stays as it is. -/
theorem iterate_nil (ctx : Context) (e : Emission) (k : Nat) :
    (Writing.next ctx)^[k] ⟨[], e⟩ = ⟨[], e⟩ := by
  induction k with
  | zero => rfl
  | succ k ih => exact ih

/-- It comes to no job. -/
theorem not_comes_nil : ¬Comes ctx ⟨[], e⟩ job := by
  rintro ⟨k, rest, e', hk⟩
  rw [iterate_nil] at hk
  cases hk

/-- A run comes to the topmost job and to those that the rest of it comes
    to. -/
theorem comes_cons_iff :
    Comes ctx ⟨job :: rest, e⟩ job' ↔ job' = job ∨ Comes ctx (next ctx ⟨job :: rest, e⟩) job' := by
  constructor
  · rintro ⟨k, rest', e', hk⟩
    cases k with
    | zero =>
        cases hk
        exact Or.inl rfl
    | succ k => exact Or.inr ⟨k, rest', e', hk⟩
  · rintro (rfl | ⟨k, rest', e', hk⟩)
    · exact ⟨0, rest, e, rfl⟩
    · exact ⟨k + 1, rest', e', hk⟩

/-- What a later turn comes to, the run comes to. -/
theorem Comes.of_iterate {k : Nat} (h : Comes ctx ((Writing.next ctx)^[k] w) job) :
    Comes ctx w job := by
  obtain ⟨m, rest, e, hm⟩ := h
  refine ⟨m + k, rest, e, ?_⟩
  rw [Function.iterate_add_apply]
  exact hm

/-- **Every job is come to**: what lies above it is done first. -/
theorem comes_of_mem (h : job ∈ w.jobs) : Comes ctx w job := by
  obtain ⟨jobs, e⟩ := w
  obtain ⟨above, below, rfl⟩ := List.append_of_mem h
  obtain ⟨k, hk⟩ := does_jobs ctx above e
  exact ⟨k, below, _, hk (job :: below)⟩

/-- What a job hands on to those in its place, all jobs on the stack keep. -/
theorem handed_iterate {Q : Job → Prop}
    (hperform : ∀ job e, Q job → ∀ job' ∈ (job.perform ctx e).1, Q job')
    (h : ∀ job ∈ w.jobs, Q job) (k : Nat) : ∀ job ∈ ((Writing.next ctx)^[k] w).jobs, Q job := by
  induction k generalizing w with
  | zero => exact h
  | succ k ih =>
      refine ih ?_
      obtain ⟨jobs, e⟩ := w
      cases jobs with
      | nil => exact h
      | cons top rest =>
          intro job hjob
          rcases List.mem_append.1 hjob with hnew | hold
          · exact hperform top e (h top (List.mem_cons_self ..)) job hnew
          · exact h job (List.mem_cons_of_mem _ hold)

/-- A property that jobs hand on to those in their place holds of all that a run
    comes to. By induction on the turns. -/
theorem Comes.of_handed {Q : Job → Prop}
    (hperform : ∀ job e, Q job → ∀ job' ∈ (job.perform ctx e).1, Q job')
    (h : ∀ job ∈ w.jobs, Q job) (hcomes : w.Comes ctx job) : Q job := by
  obtain ⟨k, rest, e, hk⟩ := hcomes
  have hjobs := handed_iterate hperform h k
  rw [hk] at hjobs
  exact hjobs job (List.mem_cons_self ..)

/-- All jobs are regular. -/
def Regular (ctx : Context) (w : Writing) : Prop := ∀ job ∈ w.jobs, job.Regular ctx

/-- **All jobs that a run comes to are regular.** -/
theorem Regular.iterate (h : w.Regular ctx) (k : Nat) : ((Writing.next ctx)^[k] w).Regular ctx :=
  handed_iterate (fun job e _ => regular_perform ctx job e) h k

/-- All jobs that a run comes to are looked up from their own nodes. -/
theorem Comes.regular (h : w.Regular ctx) (hcomes : w.Comes ctx job) : job.Regular ctx :=
  hcomes.of_handed (fun job e _ => regular_perform ctx job e) h

/-- A turn does not change what is left at the end. -/
theorem outcome_next (ctx : Context) (w : Writing) : (w.next ctx).outcome ctx = w.outcome ctx := by
  obtain ⟨k, hk⟩ := exists_end ctx w
  obtain ⟨m, hm⟩ := exists_end ctx (w.next ctx)
  have hleft : (Writing.next ctx)^[m + (k + 1)] w = ⟨[], w.outcome ctx⟩ := by
    rw [Function.iterate_add_apply, Function.iterate_succ_apply', hk]
    exact iterate_nil ctx _ m
  have hright : (Writing.next ctx)^[k + (m + 1)] w = ⟨[], (w.next ctx).outcome ctx⟩ := by
    rw [Function.iterate_add_apply, Function.iterate_succ_apply, hm]
    exact iterate_nil ctx _ k
  have hturns : m + (k + 1) = k + (m + 1) := by omega
  rw [hturns, hright] at hleft
  exact (Writing.mk.inj hleft).2

/-- What a run reaches is what it starts with and what the jobs add that it comes
    to, if this holds of every turn. -/
theorem outcome_iff {I : Writing → Prop} {P : Emission → Prop} {Q : Job → Prop}
    (hnext : ∀ w, I w → I (w.next ctx))
    (hturn : ∀ job rest e, I ⟨job :: rest, e⟩ → (P (job.perform ctx e).2 ↔ P e ∨ Q job))
    {w : Writing} (h : I w) :
    P (w.outcome ctx) ↔ P w.emission ∨ ∃ job, w.Comes ctx job ∧ Q job := by
  obtain ⟨k, hk⟩ := exists_end ctx w
  generalize w.outcome ctx = e' at hk
  induction k generalizing w with
  | zero =>
      obtain rfl : w = ⟨[], e'⟩ := hk
      constructor
      · exact Or.inl
      · rintro (hold | ⟨job, hcomes, -⟩)
        · exact hold
        · exact absurd hcomes not_comes_nil
  | succ k ih =>
      have hrest := ih (hnext w h) hk
      obtain ⟨jobs, e⟩ := w
      cases jobs with
      | nil => exact hrest
      | cons job rest =>
          rw [hrest]
          show P (job.perform ctx e).2 ∨ _ ↔ P e ∨ _
          rw [hturn job rest e h]
          constructor
          · rintro ((hold | hadds) | ⟨job', hcomes, hadds⟩)
            · exact Or.inl hold
            · exact Or.inr ⟨job, comes_cons_iff.2 (Or.inl rfl), hadds⟩
            · exact Or.inr ⟨job', comes_cons_iff.2 (Or.inr hcomes), hadds⟩
          · rintro (hold | ⟨job', hcomes, hadds⟩)
            · exact Or.inl (Or.inl hold)
            · rcases comes_cons_iff.1 hcomes with rfl | hlater
              · exact Or.inl (Or.inr hadds)
              · exact Or.inr ⟨job', hlater, hadds⟩

end Writing

end Blueprints
