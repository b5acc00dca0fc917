import Mathlib.Data.List.Perm.Subperm
import Blueprints.Proofs.Emit.Jobs

/-! # No path meets a node twice

    The writing of a routine, and of the value that it returns, ends; and
    every path on the way, be it that of a visit which is yet to come or the
    one at the place of writing, holds ids of nodes only and none twice
    (`Writing.MeetsOnce`).

    A node joins a path in two ways.  A visit adds its node, after a look at
    the path.  A pure node is added when it has been computed, and that look
    was taken before: between the two stands all that computing the node
    takes.  So the invariant (`Writing.Sound`) tells of the nodes that are
    *pending*, those whose computation has begun: they are the active ones of
    the jobs above them, each of them once, and not on the path. -/

namespace Blueprints

/-! ## Simple paths -/

/-- A path holds ids of nodes only, and none twice. -/
structure Index.Simple (index : Index) (path : Trail) : Prop where
  nodup : path.latest.Nodup
  known : ∀ id ∈ path.latest, ∃ n, index.node? id = some n

theorem Index.simple_empty (index : Index) : index.Simple .empty :=
  ⟨List.nodup_nil, fun _ h => absurd h List.not_mem_nil⟩

/-- **A new node of the blueprint may join a simple path.** -/
theorem Index.Simple.extend {index : Index} {path : Trail} (h : index.Simple path) {id : String}
    {n : Node} (hn : index.node? id = some n) (hnew : id ∉ path.latest) :
    index.Simple (path.extend id) := by
  constructor
  · exact List.nodup_cons.2 ⟨hnew, h.nodup⟩
  · intro id' hid'
    rcases List.mem_cons.1 hid' with rfl | hold
    · exact ⟨n, hn⟩
    · exact h.known id' hold

/-- A simple path is no longer than the list of nodes. -/
theorem Index.Simple.length_le {b : Blueprint} {path : Trail} (h : (build b).Simple path) :
    path.length ≤ b.nodes.length := by
  have hsub : path.latest ⊆ b.nodes.map Node.id := by
    intro id hid
    obtain ⟨n, hn⟩ := h.known id hid
    exact List.mem_map.2 ⟨n, mem_of_node?_build hn, id_of_node?_build hn⟩
  have hle := (List.subperm_of_subset h.nodup hsub).length_le
  rw [List.length_map] at hle
  rw [path.counts]
  exact hle

/-! ## Pending nodes -/

namespace Job

/-- The node that a job settles. -/
def settles? : Job → Option String
  | settle id => some id
  | _ => none

/-- The path on which a visit goes. -/
def path? : Job → Option Trail
  | visit step => some step.path
  | _ => none

/-- A job fits above others that have some nodes to settle. -/
def Fits (waiting : List String) : Job → Prop
  | visit _ | leave .. => waiting = []
  | read _ active _ _ | compute _ active _ => active = waiting
  | settle id => id ∉ waiting
  | assign .. | endRead => True

/-- The node that a job adds to a path, and that path.  A variable reader
    joins no path when it has been computed. -/
def joining? (ctx : Context) (e : Emission) : Job → Option (String × Trail)
  | visit step =>
    if step.path.contains step.node || (ctx.index.node? step.node).isNone then none
    else some (step.node, step.path)
  | settle id => if ctx.isReader id then none else some (id, e.path)
  | _ => none

end Job

/-- The nodes whose computation has begun, the latest first. -/
def pending (jobs : List Job) : List String := jobs.filterMap Job.settles?

/-- Every job fits above those below it. -/
def Orderly : List Job → Prop
  | [] => True
  | job :: rest => job.Fits (pending rest) ∧ Orderly rest

/-- A job that fits, settles no node and, if it is a visit, goes on a simple
    path. -/
structure Light (index : Index) (waiting : List String) (job : Job) : Prop where
  settles : job.settles? = none
  fits : job.Fits waiting
  simple : ∀ path, job.path? = some path → index.Simple path

section LightJobs

variable {index : Index} {ctx : Context} {block : Nat} {active : List String} {n : Node}

theorem light_read (param : String) : Light index active (.read block active n param) :=
  ⟨rfl, rfl, by intro path h; cases h⟩

theorem light_compute (id : String) : Light index active (.compute block active id) :=
  ⟨rfl, rfl, by intro path h; cases h⟩

/-- A computation settles nothing at once: its node is settled once it is
    assigned. -/
theorem light_computing {id : String} {job : Job} (h : job ∈ Job.computing block active id) :
    Light index active job := by
  rcases mem_computing h with rfl | rfl
  · exact light_compute id
  · exact ⟨rfl, trivial, by intro path h; cases h⟩

/-- An assignment fits under the computation that it is part of. -/
theorem light_assigning {job : Job} (h : job ∈ Job.assigning ctx block active n) :
    Light index active job := by
  rcases mem_assigning h with ⟨param, rfl⟩ | ⟨d, kind, name, type, -, -, -, rfl⟩
  · exact light_read param
  · exact ⟨rfl, trivial, by intro path h; cases h⟩

/-- A visit fits where nothing is pending. -/
theorem light_visiting {d : Definition} {kind : NodeKind} {job : Job}
    (h : job ∈ Job.visiting ctx block n d kind) : Light index [] job := by
  rcases mem_visiting h with ⟨param, rfl⟩ | hassign | rfl
  · exact light_read param
  · exact light_assigning hassign
  · exact ⟨rfl, rfl, by intro path h; cases h⟩

/-- What follows a visit goes on the path that it has left. -/
theorem light_following {v : Visited} (hpath : index.Simple v.2.path) {job : Job}
    (h : job ∈ (Job.following v).1) : Light index [] job := by
  obtain ⟨x, -, rfl⟩ := mem_following h
  refine ⟨rfl, rfl, ?_⟩
  intro path h
  obtain rfl := Option.some.inj h
  exact hpath

end LightJobs

/-- Light jobs add nothing to what is pending. -/
theorem pending_append_of_light {index : Index} {waiting : List String} {jobs : List Job}
    (h : ∀ job ∈ jobs, Light index waiting job) (rest : List Job) :
    pending (jobs ++ rest) = pending rest := by
  have hnone : jobs.filterMap Job.settles? = [] :=
    List.filterMap_eq_nil_iff.2 fun job hjob => (h job hjob).settles
  rw [pending, List.filterMap_append, hnone]
  rfl

/-- Light jobs may be put on top. -/
theorem Orderly.push {index : Index} {jobs rest : List Job} (h : Orderly rest)
    (hlight : ∀ job ∈ jobs, Light index (pending rest) job) : Orderly (jobs ++ rest) := by
  induction jobs with
  | nil => exact h
  | cons job jobs ih =>
      have hjobs : ∀ job' ∈ jobs, Light index (pending rest) job' :=
        fun job' hjob' => hlight job' (List.mem_cons_of_mem _ hjob')
      refine ⟨?_, ih hjobs⟩
      show job.Fits (pending (jobs ++ rest))
      rw [pending_append_of_light hjobs]
      exact (hlight job (List.mem_cons_self ..)).fits

/-! ## What a turn does to the path -/

section Turns

variable {ctx : Context} {step : Step}

/-- A node of no known kind leaves the path as it is. -/
theorem path_visit_of_unknown {n : Node} (hkind : ctx.catalog.kind? n = none) (block : Nat)
    (e : Emission) : (visit ctx n block e).2.path = e.path := by
  rw [Catalog.kind?] at hkind
  rw [visit, Context.definition?]
  cases hd : ctx.catalog.find? n.definitionId with
  | none => rfl
  | some d =>
      rw [hd] at hkind
      dsimp only at hkind ⊢
      rw [hkind]
      exact path_follow ..

/-- A visit adds its node to its path; if that path is simple, what the visit
    leaves to do is light. -/
theorem path_visit_of_new {n : Node} (hnew : ¬step.path.contains step.node = true)
    (hn : ctx.index.node? step.node = some n) (e : Emission) :
    ((Job.visit step).perform ctx e).2.path = step.path.extend step.node
      ∧ (ctx.index.Simple (step.path.extend step.node) →
        ∀ job ∈ ((Job.visit step).perform ctx e).1, Light ctx.index [] job) := by
  rcases perform_visit_of_new hnew hn e with ⟨hkind, hperform⟩ | ⟨d, kind, -, -, hperform⟩
  · have hpath : (step.visited ctx n e).2.path = step.path.extend step.node :=
      path_visit_of_unknown hkind _ _
    rw [hperform]
    refine ⟨hpath, ?_⟩
    intro hsimple job hjob
    exact light_following (hpath ▸ hsimple) hjob
  · rw [hperform]
    refine ⟨path_announce .., ?_⟩
    intro _ job hjob
    exact light_visiting hjob

/-- The end of a visit leaves the path as it is: all that joins it has been read
    before. -/
theorem path_leave (ctx : Context) (block : Nat) (n : Node) (d : Definition) (kind : NodeKind)
    (e : Emission) : ((Job.leave block n d kind).perform ctx e).2.path = e.path := by
  cases kind with
  | pure kind => exact path_follow ..
  | _ => exact path_visitKind ..

/-- **A turn adds the node that joins a path to it, and else keeps the
    path.** -/
theorem path_perform (ctx : Context) (job : Job) (e : Emission) :
    (job.perform ctx e).2.path
      = match job.joining? ctx e with
        | some (id, path) => path.extend id
        | none => e.path := by
  cases job with
  | visit step =>
      rw [Job.joining?]
      by_cases hdone : step.path.contains step.node = true ∨ ctx.index.node? step.node = none
      · rw [perform_visit_of_done hdone, if_pos (by simpa using hdone)]
      · obtain ⟨hnew, hfound⟩ := not_or.1 hdone
        obtain ⟨n, hn⟩ := Option.ne_none_iff_exists'.1 hfound
        rw [(path_visit_of_new hnew hn e).1, if_neg (by simpa using hdone)]
  | read block active n param =>
      rw [Job.perform]
      cases ctx.missing? active n param e with
      | none => exact (agrees_noted ..).path
      | some id => exact (agrees_noted ..).path
  | compute block active id =>
      rw [Job.perform]
      split
      · rfl
      · split
        · rfl
        · split
          · rfl
          · rfl
  | settle id =>
      rw [Job.perform, Job.joining?, Emission.settle]
      cases ctx.isReader id with
      | true => rfl
      | false => rfl
  | leave block n d kind => exact path_leave ..
  | assign block n d kind name type => rfl
  | endRead => rfl

end Turns

/-! ## Sound writing -/

/-- The path at the place of writing and those of the visits to come are
    simple, and no pending node is on the path. -/
structure Writing.Sound (ctx : Context) (w : Writing) : Prop where
  orderly : Orderly w.jobs
  path : ctx.index.Simple w.emission.path
  known : ∀ id ∈ pending w.jobs, ∃ n, ctx.index.node? id = some n
  apart : ∀ id ∈ pending w.jobs, ctx.isReader id = false → id ∉ w.emission.path.latest
  visits : ∀ job ∈ w.jobs, ∀ path, job.path? = some path → ctx.index.Simple path

namespace Writing.Sound

variable {ctx : Context} {job : Job} {jobs rest : List Job} {e e' : Emission}

/-- Without its topmost job, writing is as sound as before. -/
theorem drop (h : Sound ctx ⟨job :: rest, e⟩) : Sound ctx ⟨rest, e⟩ := by
  have hsub : ∀ id ∈ pending rest, id ∈ pending (job :: rest) := by
    intro id hid
    obtain ⟨job', hjob', hsettles⟩ := List.mem_filterMap.1 hid
    exact List.mem_filterMap.2 ⟨job', List.mem_cons_of_mem _ hjob', hsettles⟩
  exact ⟨h.orderly.2, h.path, fun id hid => h.known id (hsub id hid),
    fun id hid => h.apart id (hsub id hid),
    fun job' hjob' => h.visits job' (List.mem_cons_of_mem _ hjob')⟩

/-- Light jobs do not touch what is pending. -/
theorem push (h : Sound ctx ⟨rest, e⟩)
    (hlight : ∀ job ∈ jobs, Light ctx.index (pending rest) job) : Sound ctx ⟨jobs ++ rest, e⟩ := by
  have hpending : pending (jobs ++ rest) = pending rest := pending_append_of_light hlight rest
  refine ⟨h.orderly.push hlight, h.path, ?_, ?_, ?_⟩
  · intro id hid
    exact h.known id (hpending ▸ hid)
  · intro id hid
    exact h.apart id (hpending ▸ hid)
  · intro job hjob
    rcases List.mem_append.1 hjob with hnew | hold
    · exact (hlight job hnew).simple
    · exact h.visits job hold

/-- What is written besides the path does not matter. -/
theorem write (h : Sound ctx ⟨jobs, e⟩) (hpath : e'.path = e.path) : Sound ctx ⟨jobs, e'⟩ := by
  refine ⟨h.orderly, ?_, h.known, ?_, h.visits⟩
  · show ctx.index.Simple e'.path
    rw [hpath]
    exact h.path
  · intro id hid hreader
    show id ∉ e'.path.latest
    rw [hpath]
    exact h.apart id hid hreader

/-- Where nothing is pending, writing may go on on another path. -/
theorem goTo (h : Sound ctx ⟨jobs, e⟩) (hnone : pending jobs = [])
    (hpath : ctx.index.Simple e'.path) : Sound ctx ⟨jobs, e'⟩ := by
  refine ⟨h.orderly, hpath, h.known, ?_, h.visits⟩
  intro id hid
  rw [hnone] at hid
  exact absurd hid List.not_mem_nil

/-! ## One turn -/

/-- **A visit** adds its node to the path of its step, after a look at it. -/
theorem visit {step : Step} (h : Sound ctx ⟨.visit step :: rest, e⟩) :
    Sound ctx (Writing.next ctx ⟨.visit step :: rest, e⟩) := by
  have hnone : pending rest = [] := h.orderly.1
  by_cases hdone : step.path.contains step.node = true ∨ ctx.index.node? step.node = none
  · have hperform := perform_visit_of_done hdone e
    show Sound ctx ⟨((Job.visit step).perform ctx e).1 ++ rest,
      ((Job.visit step).perform ctx e).2⟩
    rw [hperform]
    exact h.drop
  · obtain ⟨hnew, hfound⟩ := not_or.1 hdone
    obtain ⟨n, hn⟩ := Option.ne_none_iff_exists'.1 hfound
    obtain ⟨hpath, hlight⟩ := path_visit_of_new hnew hn e
    have hsimple : ctx.index.Simple (step.path.extend step.node) := by
      refine (h.visits _ (List.mem_cons_self ..) _ rfl).extend hn ?_
      rw [← VisitedPath.contains_iff_mem]
      exact hnew
    refine (h.drop.goTo hnone ?_).push ?_
    · rw [hpath]
      exact hsimple
    · rw [hnone]
      exact hlight hsimple

/-- **A read** leaves the path as it is. What it computes is not on it, or not
    active. -/
theorem read {block : Nat} {active : List String} {n : Node} {param : String}
    (h : Sound ctx ⟨.read block active n param :: rest, e⟩) :
    Sound ctx (Writing.next ctx ⟨.read block active n param :: rest, e⟩) := by
  have hactive : active = pending rest := h.orderly.1
  have hnoted := h.drop.write (agrees_noted ctx active n param e).path
  show Sound ctx ⟨((Job.read block active n param).perform ctx e).1 ++ rest,
    ((Job.read block active n param).perform ctx e).2⟩
  rw [Job.perform]
  cases ctx.missing? active n param e with
  | none => exact hnoted
  | some id =>
      refine hnoted.push ?_
      intro job hjob
      rw [← hactive]
      exact light_computing hjob

/-- **A computation** makes its node pending, after a look at the path and at those
    that are active. -/
theorem compute {block : Nat} {active : List String} {id : String}
    (h : Sound ctx ⟨.compute block active id :: rest, e⟩) :
    Sound ctx (Writing.next ctx ⟨.compute block active id :: rest, e⟩) := by
  have hactive : active = pending rest := h.orderly.1
  show Sound ctx ⟨((Job.compute block active id).perform ctx e).1 ++ rest,
    ((Job.compute block active id).perform ctx e).2⟩
  rw [Job.perform]
  by_cases hcur : e.isCurrent ctx id = true
  · rw [if_pos hcur]
    exact h.drop
  · rw [if_neg hcur]
    by_cases hidle : id ∈ active
    · rw [if_pos hidle]
      exact h.drop.write rfl
    · rw [if_neg hidle]
      cases hn : ctx.index.node? id with
      | none => exact h.drop
      | some n =>
          -- the node itself is pending first, and what computing it takes lies above
          have hsettle : Sound ctx ⟨.settle id :: rest, e⟩ := by
            refine ⟨⟨hactive ▸ hidle, h.orderly.2⟩, h.path, ?_, ?_, ?_⟩
            · intro id' hid'
              rcases List.mem_cons.1 hid' with rfl | hold
              · exact ⟨n, hn⟩
              · exact h.drop.known id' hold
            · intro id' hid' hreader
              rcases List.mem_cons.1 hid' with rfl | hold
              · exact fun hmem => hcur ((isCurrent_iff_of_not_reader hreader e).2 hmem)
              · exact h.drop.apart id' hold hreader
            · intro job hjob
              rcases List.mem_cons.1 hjob with rfl | hold
              · intro path hpath
                cases hpath
              · exact h.drop.visits job hold
          dsimp only
          rw [List.append_assoc, List.singleton_append]
          refine hsettle.push ?_
          show ∀ job ∈ _, Light ctx.index (id :: pending rest) job
          rw [← hactive]
          intro job hjob
          rcases List.mem_append.1 hjob with hdependency | hassign
          · obtain ⟨id', -, rfl⟩ := List.mem_map.1 hdependency
            exact light_compute id'
          · exact light_assigning hassign

/-- **A node that is settled** joins the path. It was pending, so it is not there
    yet. -/
theorem settle {id : String} (h : Sound ctx ⟨.settle id :: rest, e⟩) :
    Sound ctx (Writing.next ctx ⟨.settle id :: rest, e⟩) := by
  show Sound ctx ⟨rest, e.settle ctx id⟩
  have hid : id ∈ pending (.settle id :: rest) := List.mem_cons_self ..
  rw [Emission.settle]
  cases hreader : ctx.isReader id with
  | true => exact h.drop.write rfl
  | false =>
      obtain ⟨n, hn⟩ := h.known id hid
      refine ⟨h.orderly.2, h.path.extend hn (h.apart id hid hreader), h.drop.known, ?_,
        h.drop.visits⟩
      intro id' hid' hreader' hmem
      rcases List.mem_cons.1 hmem with rfl | hold
      · exact h.orderly.1 hid'
      · exact h.drop.apart id' hid' hreader' hold

/-- **The end of a visit** hands the path on to the visits behind it. -/
theorem leave {block : Nat} {n : Node} {d : Definition} {kind : NodeKind}
    (h : Sound ctx ⟨.leave block n d kind :: rest, e⟩) :
    Sound ctx (Writing.next ctx ⟨.leave block n d kind :: rest, e⟩) := by
  have hnone : pending rest = [] := h.orderly.1
  have hpath : ctx.index.Simple ((Job.leave block n d kind).perform ctx e).2.path := by
    rw [path_leave]
    exact h.path
  refine (h.drop.goTo hnone hpath).push ?_
  rw [hnone]
  intro job hjob
  cases kind with
  | _ => exact light_following hpath hjob

/-- **A turn keeps writing sound.** -/
theorem next {w : Writing} (h : w.Sound ctx) : (w.next ctx).Sound ctx := by
  obtain ⟨jobs, e⟩ := w
  cases jobs with
  | nil => exact h
  | cons job rest =>
      cases job with
      | visit step => exact h.visit
      | read block active n param => exact h.read
      | compute block active id => exact h.compute
      | assign block n d kind name type => exact h.drop.write rfl
      | settle id => exact h.settle
      | endRead => exact h.drop.write rfl
      | leave block n d kind => exact h.leave

/-- **A run keeps writing sound.** -/
theorem iterate {w : Writing} (h : w.Sound ctx) (k : Nat) :
    ((Writing.next ctx)^[k] w).Sound ctx := by
  induction k generalizing w with
  | zero => exact h
  | succ k ih => exact ih h.next

end Writing.Sound

/-! ## Whole writings -/

namespace Writing

/-- The writing of a routine, before its first turn. -/
def ofRoutine (entries : List Node) (findings : Findings) : Writing :=
  ⟨(entrySteps entries { findings }).1.map .visit, (entrySteps entries { findings }).2⟩

/-- The writing of the value that a return node gives back, before its first
    turn. -/
def ofReturn (n : Node) (e : Emission) : Writing :=
  ⟨[.read Arena.root [] n "value"], e.onPath .empty⟩

/-- A routine is what its writing leaves. By induction on the steps. -/
theorem outcome_ofRoutine (ctx : Context) (entries : List Node) (findings : Findings) :
    (ofRoutine entries findings).outcome ctx = writeRoutine ctx entries findings := by
  have hwalk : ∀ (steps : List Step) (e : Emission),
      (steps.map Job.visit).foldl (fun e job => job.outcome ctx e) e = walk ctx steps e := by
    intro steps
    induction steps with
    | nil => exact fun e => (walk_nil e).symm
    | cons step rest ih =>
        intro e
        rw [List.map_cons, List.foldl_cons, ih, ← List.singleton_append, walk_append]
        rfl
  exact hwalk _ _

/-- A routine starts with visits. -/
theorem forall_mem_ofRoutine {Q : Job → Prop} (h : ∀ step, Q (.visit step)) (entries : List Node)
    (findings : Findings) : ∀ job ∈ (ofRoutine entries findings).jobs, Q job := by
  intro job hjob
  obtain ⟨step, -, rfl⟩ := List.mem_map.1 hjob
  exact h step

/-- The writing of a return starts with one read. -/
theorem forall_mem_ofReturn {Q : Job → Prop} {n : Node} (h : Q (.read Arena.root [] n "value"))
    (e : Emission) : ∀ job ∈ (ofReturn n e).jobs, Q job := by
  intro job hjob
  obtain rfl := List.mem_singleton.1 hjob
  exact h

theorem regular_ofRoutine (ctx : Context) (entries : List Node) (findings : Findings) :
    (ofRoutine entries findings).Regular ctx :=
  forall_mem_ofRoutine (fun _ => trivial) entries findings

theorem regular_ofReturn (ctx : Context) (n : Node) (e : Emission) : (ofReturn n e).Regular ctx :=
  forall_mem_ofReturn trivial e

/-- Writing starts sound from light jobs on the empty path. -/
theorem Sound.start {ctx : Context} {jobs : List Job} {e : Emission} (hpath : e.path = .empty)
    (hlight : ∀ job ∈ jobs, Light ctx.index [] job) : Sound ctx ⟨jobs, e⟩ := by
  have hnothing : Sound ctx ⟨[], e⟩ := by
    refine ⟨trivial, ?_, ?_, ?_, ?_⟩
    · show ctx.index.Simple e.path
      rw [hpath]
      exact ctx.index.simple_empty
    · exact fun id hid => absurd hid List.not_mem_nil
    · exact fun id hid => absurd hid List.not_mem_nil
    · exact fun job hjob => absurd hjob List.not_mem_nil
  have hpush := hnothing.push hlight
  rw [List.append_nil] at hpush
  exact hpush

/-- The writing of a routine starts with visits on empty paths. -/
theorem sound_ofRoutine (ctx : Context) (entries : List Node) (findings : Findings) :
    (ofRoutine entries findings).Sound ctx := by
  refine .start ?_ ?_
  · rw [entrySteps_eq]
    exact path_spread ..
  · intro job hjob
    obtain ⟨step, hstep, rfl⟩ := List.mem_map.1 hjob
    rw [entrySteps_eq] at hstep
    obtain ⟨x, -, rfl⟩ := List.mem_map.1 hstep
    refine ⟨rfl, rfl, ?_⟩
    intro path h
    obtain rfl := Option.some.inj h
    exact ctx.index.simple_empty

/-- The paths of a writing: the one at the place of writing, and those that
    the visits to come carry. -/
def paths (w : Writing) : List Trail := w.emission.path :: w.jobs.filterMap Job.path?

/-- The node that the next turn adds to a path, and that path. -/
def joining? (ctx : Context) (w : Writing) : Option (String × Trail) :=
  w.jobs.head?.bind (Job.joining? ctx w.emission)

end Writing

end Blueprints
