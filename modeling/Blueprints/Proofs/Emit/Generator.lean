import Blueprints.Proofs.Emit.Reports

/-! # A generator with a memory

    The functions that write a routine are handed what they have to know of the
    way they were reached: the nodes that are being computed are an argument,
    and a routine begins with no variable reader that is current.  Here the
    same work is done by a *generator*, which keeps both in a memory of its own
    and begins a routine with what the last one has left in it.

    It does the jobs of `Writing.next`, but looks up the nodes that are being
    computed in its memory, whatever the job carries (`Job.under`).  There stand
    the pending nodes at every turn, since each computation takes its mark back
    when its node is settled (`Generator.InStep`).  These are what the jobs
    carry, so the two machines go in step, and at the end of a routine nothing
    is marked (`Generator.writes_iff`). -/

namespace Blueprints

/-! ## The machine -/

/-- What a generator keeps from one routine to the next. -/
structure Memory where
  findings : Findings := {}
  /-- The nodes that are being computed. -/
  active : List String := []
  /-- The variable readers that were computed for the value that is being
      read. -/
  fresh : List String := []

/-- A generator at work: what is left to do, the nodes that are being computed,
    and the routine as it is being written. -/
structure Generator where
  jobs : List Job
  active : List String
  emission : Emission

/-- A job that looks for the nodes that are being computed in a memory. -/
def Job.under (active : List String) : Job → Job
  | .read block _ n param => .read block active n param
  | .compute block _ id => .compute block active id
  | job => job

/-- The nodes that are being computed after a turn: a computation that leaves
    something to do has begun, one whose node is settled is over. -/
def Job.computed (active : List String) (left : List Job) : Job → List String
  | .compute _ _ id => if left.isEmpty then active else id :: active
  | .settle id => active.erase id
  | _ => active

namespace Generator

/-- One turn of the generator: the topmost job is done. -/
def next (ctx : Context) (g : Generator) : Generator :=
  match g.jobs with
  | [] => g
  | job :: rest =>
    ⟨((job.under g.active).perform ctx g.emission).1 ++ rest,
      job.computed g.active ((job.under g.active).perform ctx g.emission).1,
      ((job.under g.active).perform ctx g.emission).2⟩

/-- A generator with a memory at the start of a routine. -/
def start (entries : List Node) (m : Memory) : Generator :=
  ⟨(entrySteps entries { findings := m.findings, fresh := m.fresh }).1.map .visit, m.active,
    (entrySteps entries { findings := m.findings, fresh := m.fresh }).2⟩

/-- What a generator keeps. -/
def memory (g : Generator) : Memory := ⟨g.emission.findings, g.active, g.emission.fresh⟩

/-- A generator with a memory writes a routine, and keeps another one. -/
def Writes (ctx : Context) (entries : List Node) (m : Memory) (r : Routine) (m' : Memory) : Prop :=
  ∃ k g, (next ctx)^[k] (start entries m) = g ∧ g.jobs = [] ∧ g.emission.routine = r
    ∧ g.memory = m'

/-- The work that is left, by the machine without a memory. -/
def writing (g : Generator) : Writing := ⟨g.jobs, g.emission⟩

end Generator

/-! ## Marks on nodes that are being computed -/

section Turns

variable {ctx : Context} {job : Job} {rest : List Job} {e : Emission}

/-- Nothing is settled by an assignment, or by the reads ahead of it. -/
theorem settles?_assigning {block : Nat} {active : List String} {n : Node}
    (h : job ∈ Job.assigning ctx block active n) : job.settles? = none := by
  rcases mem_assigning h with ⟨param, rfl⟩ | ⟨d, kind, name, type, -, -, -, rfl⟩
  · rfl
  · rfl

/-- A visit settles nothing, nor does what it leads to. -/
theorem settles?_perform_visit (step : Step) (e : Emission) :
    ∀ job ∈ ((Job.visit step).perform ctx e).1, job.settles? = none := by
  intro job hjob
  by_cases hdone : step.path.contains step.node = true ∨ ctx.index.node? step.node = none
  · rw [perform_visit_of_done hdone] at hjob
    exact absurd hjob List.not_mem_nil
  · obtain ⟨hnew, hfound⟩ := not_or.1 hdone
    obtain ⟨n, hn⟩ := Option.ne_none_iff_exists'.1 hfound
    rcases perform_visit_of_new hnew hn e with ⟨-, hperform⟩ | ⟨d, kind, -, -, hperform⟩
    · rw [hperform] at hjob
      obtain ⟨x, -, rfl⟩ := mem_following hjob
      rfl
    · rw [hperform] at hjob
      rcases mem_visiting hjob with ⟨param, rfl⟩ | hassign | rfl
      · rfl
      · exact settles?_assigning hassign
      · rfl

/-- To read an input begins a computation at most; it settles nothing itself. -/
theorem settles?_perform_read (block : Nat) (active : List String) (n : Node) (param : String)
    (e : Emission) :
    ∀ job ∈ ((Job.read block active n param).perform ctx e).1, job.settles? = none := by
  intro job hjob
  rw [Job.perform] at hjob
  cases hmissing : ctx.missing? active n param e with
  | none =>
      rw [hmissing] at hjob
      exact absurd hjob List.not_mem_nil
  | some id =>
      rw [hmissing] at hjob
      rcases mem_computing hjob with rfl | rfl
      · rfl
      · rfl

theorem pending_append (jobs rest : List Job) :
    pending (jobs ++ rest) = pending jobs ++ pending rest := List.filterMap_append

theorem pending_eq_nil {jobs : List Job} (h : ∀ job ∈ jobs, job.settles? = none) :
    pending jobs = [] := List.filterMap_eq_nil_iff.2 h

/-- A computation leaves nothing to do, or its node is pending first. -/
theorem pending_perform_compute (ctx : Context) (block : Nat) (active : List String) (id : String)
    (e : Emission) :
    ((Job.compute block active id).perform ctx e).1 = []
      ∨ ((Job.compute block active id).perform ctx e).1 ≠ []
        ∧ pending ((Job.compute block active id).perform ctx e).1 = [id] := by
  rw [Job.perform]
  split
  · exact Or.inl rfl
  · split
    · exact Or.inl rfl
    · split
      · exact Or.inl rfl
      · next n hn =>
        have hbefore : pending ((ctx.pureDependencies n).map (.compute block (id :: active))
            ++ Job.assigning ctx block (id :: active) n) = [] := by
          refine pending_eq_nil ?_
          intro job hjob
          rcases List.mem_append.1 hjob with hdependency | hassign
          · obtain ⟨id', -, rfl⟩ := List.mem_map.1 hdependency
            rfl
          · exact settles?_assigning hassign
        refine Or.inr ⟨by simp, ?_⟩
        rw [pending_append, hbefore]
        rfl

/-- **One turn keeps the marks**: a memory that holds the pending nodes holds
    them afterwards. -/
theorem computed_pending (ctx : Context) (job : Job) (rest : List Job) (e : Emission) :
    job.computed (pending (job :: rest)) (job.perform ctx e).1
      = pending ((job.perform ctx e).1 ++ rest) := by
  rw [pending_append]
  cases job with
  | compute block active id =>
      rcases pending_perform_compute ctx block active id e with hnone | ⟨hsome, hpending⟩
      · -- there is nothing to compute, and no mark is set
        rw [hnone]
        rfl
      · rw [Job.computed, hpending, if_neg (by simpa using hsome)]
        rfl
  | settle id =>
      -- the node that is settled is the one that was marked last
      show (id :: pending rest).erase id = pending rest
      exact List.erase_cons_head ..
  | visit step =>
      rw [pending_eq_nil (settles?_perform_visit step e)]
      rfl
  | read block active n param =>
      rw [pending_eq_nil (settles?_perform_read block active n param e)]
      rfl
  | leave block n d kind =>
      have hnone : pending ((Job.leave block n d kind).perform ctx e).1 = [] := by
        refine pending_eq_nil ?_
        intro job hjob
        cases kind with
        | _ =>
            obtain ⟨x, -, rfl⟩ := mem_following hjob
            rfl
      rw [hnone]
      rfl
  | assign block n d kind name type => rfl
  | endRead => rfl

/-- A job that fits above others looks up what it carries. -/
theorem Job.under_pending (h : job.Fits (pending rest)) :
    job.under (pending (job :: rest)) = job := by
  cases job with
  | read block active n param =>
      have hactive : active = pending rest := h
      rw [hactive]
      rfl
  | compute block active id =>
      have hactive : active = pending rest := h
      rw [hactive]
      rfl
  | _ => rfl

end Turns

namespace Generator

variable {ctx : Context} {g : Generator}

/-- A generator goes in step with sound writing: its memory holds the pending
    nodes. -/
structure InStep (ctx : Context) (g : Generator) : Prop where
  sound : g.writing.Sound ctx
  active : g.active = pending g.jobs

/-- **One turn of the generator** is one without a memory. -/
theorem InStep.writing_next (h : g.InStep ctx) : (g.next ctx).writing = g.writing.next ctx := by
  obtain ⟨jobs, active, e⟩ := g
  obtain rfl : active = pending jobs := h.active
  cases jobs with
  | nil => rfl
  | cons job rest =>
      have hunder := Job.under_pending h.sound.orderly.1
      rw [next, Generator.writing]
      dsimp only
      rw [hunder]
      rfl

/-- **A generator stays in step**, since it takes back the mark of a node when it
    settles it. -/
theorem InStep.next (h : g.InStep ctx) : (g.next ctx).InStep ctx := by
  refine ⟨?_, ?_⟩
  · rw [h.writing_next]
    exact h.sound.next
  · obtain ⟨jobs, active, e⟩ := g
    obtain rfl : active = pending jobs := h.active
    cases jobs with
    | nil => rfl
    | cons job rest =>
        have hunder := Job.under_pending h.sound.orderly.1
        rw [Generator.next]
        dsimp only
        rw [hunder]
        exact computed_pending ctx job rest e

/-- **Any number of turns of the generator** are as many without a memory. -/
theorem InStep.iterate (h : g.InStep ctx) (k : Nat) :
    ((Generator.next ctx)^[k] g).InStep ctx
      ∧ ((Generator.next ctx)^[k] g).writing = (Writing.next ctx)^[k] g.writing := by
  induction k generalizing g with
  | zero => exact ⟨h, rfl⟩
  | succ k ih =>
      obtain ⟨hstep, hwriting⟩ := ih h.next
      rw [h.writing_next] at hwriting
      exact ⟨hstep, hwriting⟩

end Generator

/-! ## Marks on variable readers -/

section Marks

variable {ctx : Context} {n : Node} {e : Emission} {computing : String → Emission → Emission}
  (hcomputing : ∀ id e, (computing id e).fresh = [])

section Reading

include hcomputing

/-- A read that starts with no current reader ends with none, if computing does. -/
theorem fresh_readWith (active : List String) (param : String) (he : e.fresh = []) :
    (readWith ctx computing active n param e).2.fresh = [] := by
  rw [snd_readWith]
  cases ctx.missing? active n param e with
  | none => exact (agrees_noted ctx active n param e).fresh.trans he
  | some id => exact hcomputing id _

/-- So do several reads. -/
theorem fresh_readAllWith (active params : List String) (he : e.fresh = []) :
    (readAllWith ctx computing active n params e).2.fresh = [] := by
  induction params generalizing e with
  | nil => exact he
  | cons param rest ih => exact ih (fresh_readWith hcomputing active param he)

/-- So does an assignment. -/
theorem fresh_assignWith (active : List String) (block : Nat) (he : e.fresh = []) :
    (assignWith ctx computing active n block e).fresh = [] := by
  rw [assignWith]
  split
  · exact he
  · split
    · exact fresh_readAllWith hcomputing active _ he
    · exact he

end Reading

theorem fresh_computeOnce (ctx : Context) (block : Nat) (id : String) (e : Emission) :
    (computeOnce ctx block id e).fresh = [] := rfl

/-- Writing statements marks no reader. -/
theorem unwritten_fresh : Emission.Unwritten Emission.fresh :=
  ⟨fun _ _ _ => rfl, fun _ _ _ => rfl, fun _ _ _ => rfl, fun _ _ => rfl, fun _ => rfl,
    fun _ _ => rfl⟩

/-- The statements of a node make no reader current. -/
theorem fresh_visitKind {d : Definition} {kind : NodeKind} {operand : String → Operand}
    {block : Nat} (he : e.fresh = []) :
    (visitKind ctx n d kind operand block e).2.fresh = [] := by
  by_cases hpure : ∃ k, kind = .pure k
  · obtain ⟨k, rfl⟩ := hpure
    rw [visitKind]
    exact (unwritten_fresh.uncoded.goOn block _ _).trans
      (fresh_assignWith (fresh_computeOnce ctx block) [] block he)
  · by_cases hreturn : kind = .functionReturn
    · rw [hreturn]
      exact he
    · exact (unwritten_fresh.uncoded.visitKind (not_exists.1 hpure) hreturn operand block e).trans
        he

/-- A visit ends the reads that it makes. -/
theorem fresh_visit {block : Nat} (he : e.fresh = []) : (visit ctx n block e).2.fresh = [] := by
  rw [visit]
  split
  · exact he
  · split
    · exact (unwritten_fresh.uncoded.goOn block _ _).trans he
    · refine fresh_visitKind (fresh_readAllWith (fresh_computeOnce ctx block) [] _ ?_)
      exact (unwritten_fresh.announce ctx n _ _ block e).trans he

/-- **A walk leaves no reader current.** -/
theorem fresh_walk (stack : List Step) (he : e.fresh = []) : (walk ctx stack e).fresh = [] := by
  fun_induction walk ctx stack e with
  | case1 e => exact he
  | case2 e step rest hdone ih => exact ih he
  | case3 e step rest hnew hnone ih => exact ih he
  | case4 e step rest hnew n hn visited ih => exact ih (fresh_visit he)

/-- **At the end of a routine no reader is current.** -/
theorem fresh_writeRoutine (ctx : Context) (entries : List Node) (findings : Findings) :
    (writeRoutine ctx entries findings).fresh = [] := by
  refine fresh_walk _ ?_
  rw [entrySteps_eq]
  exact unwritten_fresh.uncoded.spread Arena.root _ { findings }

end Marks

/-! ## Routines -/

namespace Generator

variable {ctx : Context} {entries : List Node}

/-- A generator with nothing to do stays as it is. -/
theorem iterate_of_done {g : Generator} (h : g.jobs = []) (k : Nat) :
    (Generator.next ctx)^[k] g = g := by
  have hstays : Generator.next ctx g = g := by
    rw [Generator.next, h]
  exact Function.iterate_fixed hstays k

/-- A generator writes one routine. -/
theorem Writes.unique {m m₁ m₂ : Memory} {r₁ r₂ : Routine} (h₁ : Writes ctx entries m r₁ m₁)
    (h₂ : Writes ctx entries m r₂ m₂) : r₁ = r₂ ∧ m₁ = m₂ := by
  obtain ⟨k₁, g₁, hk₁, hdone₁, rfl, rfl⟩ := h₁
  obtain ⟨k₂, g₂, hk₂, hdone₂, rfl, rfl⟩ := h₂
  -- after the turns of both runs each has come to its own end
  have hsame : g₁ = g₂ :=
    calc g₁ = (Generator.next ctx)^[k₂] g₁ := (iterate_of_done hdone₁ k₂).symm
      _ = (Generator.next ctx)^[k₁ + k₂] (start entries m) := by
          rw [← hk₁, ← Function.iterate_add_apply, Nat.add_comm]
      _ = (Generator.next ctx)^[k₁] g₂ := by rw [Function.iterate_add_apply, hk₂]
      _ = g₂ := iterate_of_done hdone₂ k₁
  rw [hsame]
  exact ⟨rfl, rfl⟩

/-- **A generator with nothing marked comes to an end**, writes the routine that
    is written without a memory, and has nothing marked again. -/
theorem writes_iff {f : Findings} {r : Routine} {m : Memory} :
    Writes ctx entries { findings := f } r m
      ↔ r = (writeRoutine ctx entries f).routine
        ∧ m = { findings := (writeRoutine ctx entries f).findings } := by
  have hstart : (start entries { findings := f }).InStep ctx :=
    ⟨Writing.sound_ofRoutine ctx entries f,
      (pending_eq_nil (Writing.forall_mem_ofRoutine (fun _ => rfl) entries f)).symm⟩
  -- the end is that of the machine without a memory; it is reached, and it is the only one
  have hwrites : Writes ctx entries { findings := f } (writeRoutine ctx entries f).routine
      { findings := (writeRoutine ctx entries f).findings } := by
    obtain ⟨k, hk⟩ := Writing.exists_end ctx (Writing.ofRoutine entries f)
    obtain ⟨hstep, hwriting⟩ := hstart.iterate k
    have hend : ((Generator.next ctx)^[k] (start entries { findings := f })).writing
        = ⟨[], writeRoutine ctx entries f⟩ := by
      rw [← Writing.outcome_ofRoutine, ← hk]
      exact hwriting
    obtain ⟨hdone, hemission⟩ := Writing.mk.inj hend
    refine ⟨k, _, rfl, hdone, by rw [hemission], ?_⟩
    rw [memory, hemission, hstep.active, hdone, fresh_writeRoutine]
    rfl
  constructor
  · intro h
    exact h.unique hwrites
  · rintro ⟨rfl, rfl⟩
    exact hwrites

end Generator

end Blueprints
