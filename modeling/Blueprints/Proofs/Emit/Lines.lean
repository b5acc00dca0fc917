import Blueprints.Proofs.Emit.Jobs

/-! # The lines of a run

    The lines with values that a run writes are the statements of the jobs
    that it comes to (`Writing.has_outcome_iff`), and the values in them are
    those of the inputs that it reads (`Writing.mentions_outcome_iff`).  This
    holds over any catalog.

    A job that states something has its inputs read above it on the stack,
    and an input is read above the job that states something with it.  As a
    run comes to every job on the stack, both ways round are invariants of
    the stack alone. -/

namespace Blueprints

open Arena

/-! ## Places of jobs -/

namespace Job

/-- The block that a job writes into; the root for one that writes
    nothing. -/
def block : Job → Nat
  | visit step => step.block
  | read block .. | compute block .. | assign block .. | leave block .. => block
  | settle _ | endRead => Arena.root

/-- The statement that a job writes. -/
def statement? (ctx : Context) : Job → Option Statement
  | assign _ n d kind name _ =>
    some (.assign name (kind.expr ctx n d (ctx.operands n kind.slots)))
  | leave _ n d kind =>
    match kind with
    | .pure _ => none
    | kind => kind.statement? ctx n d (ctx.operands n (kind.slots ctx n))
  | _ => none

end Job

/-- A block is there, under the root. -/
abbrev Emission.Opens (ctx : Context) (e : Emission) (block : Nat) : Prop :=
  Ready ctx Arena.root [] e.blocks [] block

theorem Emission.Opens.root {ctx : Context} {e : Emission} {block : Nat} (h : e.Opens ctx block) :
    e.Opens ctx Arena.root :=
  ready_root ctx (Nat.lt_of_le_of_lt (Nat.zero_le block) h.within)

/-- What a job writes: its statement, then only bare lines; and the blocks of
    the jobs that come in its place are there. -/
structure Job.Writes (ctx : Context) (job : Job) (e : Emission) : Prop where
  quiet : (e.blocks.lines job.block (job.statement? ctx).toList).Quietly job.block
    (job.perform ctx e).2.blocks
  opens : ∀ job' ∈ (job.perform ctx e).1, (job.perform ctx e).2.Opens ctx job'.block

section Placing

variable {ctx : Context} {e e' : Emission} {block : Nat} {active : List String} {n : Node}

/-- An assignment writes into one block. -/
theorem block_assigning {job : Job} (h : job ∈ Job.assigning ctx block active n) :
    job.block = block := by
  rcases mem_assigning h with ⟨param, rfl⟩ | ⟨d, kind, name, type, -, -, -, rfl⟩
  · rfl
  · rfl

/-- A visit writes into the block of its step. -/
theorem block_visiting {d : Definition} {kind : NodeKind} {job : Job}
    (h : job ∈ Job.visiting ctx block n d kind) : job.block = block := by
  rcases mem_visiting h with ⟨param, rfl⟩ | hassign | rfl
  · rfl
  · exact block_assigning hassign
  · rfl

theorem GoesOn.opens {v : Visited} (h : GoesOn ctx Arena.root [] [] block e v) {job : Job}
    (hjob : job ∈ (Job.following v).1) : v.2.Opens ctx job.block := by
  obtain ⟨x, hx, rfl⟩ := mem_following hjob
  exact h.exits x hx

/-- A visit states nothing itself: it puts jobs in its place, or leaves a
    comment. -/
theorem writes_visit {step : Step} (h : e.Opens ctx step.block) :
    (Job.visit step).Writes ctx e := by
  by_cases hdone : step.path.contains step.node = true ∨ ctx.index.node? step.node = none
  · have hperform := perform_visit_of_done hdone e
    constructor
    · rw [hperform]
      exact .refl _ _
    · rw [hperform]
      exact fun job' hjob' => absurd hjob' List.not_mem_nil
  · obtain ⟨hnew, hfound⟩ := not_or.1 hdone
    obtain ⟨n, hn⟩ := Option.ne_none_iff_exists'.1 hfound
    rcases perform_visit_of_new hnew hn e with ⟨hkind, hperform⟩ | ⟨d, kind, -, -, hperform⟩
    · have hgo : GoesOn ctx Arena.root [] [] step.block (e.onPath (step.path.extend step.node))
          (step.visited ctx n e) := goesOn_visit_of_unknown hkind h
      constructor
      · rw [hperform]
        exact hgo.quiet
      · rw [hperform]
        exact fun job' hjob' => hgo.opens hjob'
    · have hquiet := quietly_announce (e.onPath (step.path.extend step.node)) ctx n d kind step.block
      constructor
      · rw [hperform]
        exact hquiet
      · rw [hperform]
        intro job' hjob'
        rw [block_visiting hjob']
        exact h.keeps hquiet.keeps

/-- A read states nothing itself: it declares a name, or reports something. -/
theorem writes_read {param : String} (h : e.Opens ctx block) :
    (Job.read block active n param).Writes ctx e := by
  have hnoted := agrees_noted ctx active n param e
  have hblocks : ((Job.read block active n param).perform ctx e).2.blocks = e.blocks := by
    rw [Job.perform]
    cases ctx.missing? active n param e with
    | none => exact hnoted.blocks
    | some id => exact hnoted.blocks
  constructor
  · rw [hblocks]
    exact .refl _ _
  · intro job' hjob'
    show Ready ctx Arena.root [] ((Job.read block active n param).perform ctx e).2.blocks [] job'.block
    rw [hblocks]
    rw [Job.perform] at hjob'
    cases hmissing : ctx.missing? active n param e with
    | none =>
        rw [hmissing] at hjob'
        exact absurd hjob' List.not_mem_nil
    | some id =>
        rw [hmissing] at hjob'
        rcases mem_computing hjob' with rfl | rfl
        · exact h
        · exact h.root

/-- A computation states nothing itself: it puts jobs in its place, or reports a
    circle. -/
theorem writes_compute {id : String} (h : e.Opens ctx block) :
    (Job.compute block active id).Writes ctx e := by
  have hnone : ∀ e', Agrees e e' → (Job.compute block active id).perform ctx e = ([], e') →
      (Job.compute block active id).Writes ctx e := by
    intro e' hagrees hperform
    constructor
    · rw [hperform]
      show e.blocks.Quietly block e'.blocks
      rw [hagrees.blocks]
      exact .refl _ _
    · rw [hperform]
      exact fun job' hjob' => absurd hjob' List.not_mem_nil
  by_cases hcur : e.isCurrent ctx id = true
  · exact hnone e (.refl e) (by rw [Job.perform, if_pos hcur])
  · by_cases hidle : id ∈ active
    · refine hnone _ (agrees_report e .shapeAmbiguity id
        "data cycle: value is read before it is computed") ?_
      rw [Job.perform, if_neg hcur, if_pos hidle]
    · cases hn : ctx.index.node? id with
      | none => exact hnone e (.refl e) (by rw [Job.perform, if_neg hcur, if_neg hidle, hn])
      | some n =>
          have hperform : (Job.compute block active id).perform ctx e
              = ((ctx.pureDependencies n).map (Job.compute block (id :: active))
                ++ Job.assigning ctx block (id :: active) n ++ [.settle id], e) := by
            rw [Job.perform, if_neg hcur, if_neg hidle, hn]
          constructor
          · rw [hperform]
            exact .refl _ _
          · rw [hperform]
            intro job' hjob'
            rcases List.mem_append.1 hjob' with hbefore | hsettle
            · rcases List.mem_append.1 hbefore with hdependency | hassign
              · obtain ⟨id', -, rfl⟩ := List.mem_map.1 hdependency
                exact h
              · rw [block_assigning hassign]
                exact h
            · obtain rfl := List.mem_singleton.1 hsettle
              exact h.root

/-- A node that is not pure is left by its statements. -/
theorem leave_of_not_pure (ctx : Context) (block : Nat) (n : Node) (d : Definition)
    {kind : NodeKind} (h : ∀ k, kind ≠ .pure k) (e : Emission) :
    (Job.leave block n d kind).perform ctx e
        = Job.following (visitKind ctx n d kind (ctx.operands n (kind.slots ctx n)) block e)
      ∧ (Job.leave block n d kind).statement? ctx
        = kind.statement? ctx n d (ctx.operands n (kind.slots ctx n)) := by
  cases kind with
  | pure k => exact absurd rfl (h k)
  | _ => exact ⟨rfl, rfl⟩

/-- **The end of a visit states what its kind does**, and the rest of it is bare
    lines. -/
theorem writes_leave {d : Definition} {kind : NodeKind} (h : e.Opens ctx block) :
    (Job.leave block n d kind).Writes ctx e := by
  by_cases hpure : ∃ k, kind = .pure k
  · obtain ⟨k, rfl⟩ := hpure
    have hgo := goesOn_goOn (ctx.index.execLeaving n d) h
    exact ⟨hgo.quiet, fun job' hjob' => hgo.opens hjob'⟩
  · obtain ⟨hperform, hstatement⟩ :=
      leave_of_not_pure ctx block n d (not_exists.1 hpure) e
    have hgo := goesOn_visitKind (not_exists.1 hpure) (ctx.operands n (kind.slots ctx n))
      (h.keeps (keeps_lines e.blocks block
        (kind.statement? ctx n d (ctx.operands n (kind.slots ctx n))).toList))
    constructor
    · rw [hperform, hstatement]
      exact hgo.quiet
    · rw [hperform]
      exact fun job' hjob' => hgo.opens hjob'

/-- **What a turn writes** is the statement of its job and bare lines. -/
theorem Job.writes {job : Job} (h : e.Opens ctx job.block) : job.Writes ctx e := by
  cases job with
  | visit step => exact writes_visit h
  | read block active n param => exact writes_read h
  | compute block active id => exact writes_compute h
  | assign block n d kind name type =>
      refine ⟨?_, fun job' hjob' => absurd hjob' List.not_mem_nil⟩
      have hblocks : ((e.declare name type).emit block
          (.assign name (kind.expr ctx n d (ctx.operands n kind.slots)))).blocks
            = e.blocks.line block
              (.assign name (kind.expr ctx n d (ctx.operands n kind.slots))) := by
        rw [Emission.blocks_emit, Emission.blocks_declare]
      show Quietly block _ ((e.declare name type).emit block _).blocks
      rw [hblocks]
      exact .refl _ _
  | settle id =>
      refine ⟨?_, fun job' hjob' => absurd hjob' List.not_mem_nil⟩
      have hblocks : (e.settle ctx id).blocks = e.blocks := by
        rw [Emission.settle]
        cases ctx.isReader id with
        | true => rfl
        | false => rfl
      show Quietly Arena.root e.blocks (e.settle ctx id).blocks
      rw [hblocks]
      exact .refl _ _
  | endRead => exact ⟨.refl _ _, fun job' hjob' => absurd hjob' List.not_mem_nil⟩
  | leave block n d kind => exact writes_leave h

end Placing

/-! ## What has been written -/

/-- A line stands somewhere. -/
def Arena.Has {α : Type} (a : Arena α) (l : α) : Prop :=
  ∃ x i : Nat, (a.body x)[i]? = some (.line l)

/-- Bare lines hold nothing else. -/
theorem Arena.Quietly.has_iff {a a' : Arena Statement} {b : Nat} (h : a.Quietly b a')
    {s : Statement} (hs : s.isBare = false) : a'.Has s ↔ a.Has s := by
  constructor
  · rintro ⟨x, i, hline⟩
    rcases h.lines hline with hold | hbare
    · exact ⟨x, i, hold⟩
    · rw [hs] at hbare
      cases hbare
  · rintro ⟨x, i, hline⟩
    exact ⟨x, i, h.keeps.body hline⟩

/-- A line that is written is there, with those that were. -/
theorem Arena.has_line_iff {a : Arena Statement} {b : Nat} (hb : b < a.size) {l s : Statement} :
    (a.line b l).Has s ↔ a.Has s ∨ s = l := by
  constructor
  · rintro ⟨x, i, hline⟩
    rcases getElem?_line_cases hline with hold | ⟨-, -, hnew⟩
    · exact Or.inl ⟨x, i, hold⟩
    · exact Or.inr (Item.line.inj hnew)
  · rintro (⟨x, i, hline⟩ | rfl)
    · exact ⟨x, i, (keeps_line a b l).body hline⟩
    · exact ⟨b, _, getElem?_body_line hb _⟩

/-- A line brings no other one. -/
theorem Arena.has_line_of_ne {a : Arena Statement} {b : Nat} {l s : Statement} (h : s ≠ l) :
    (a.line b l).Has s ↔ a.Has s := by
  constructor
  · rintro ⟨x, i, hline⟩
    rcases getElem?_line_cases hline with hold | ⟨-, -, hnew⟩
    · exact ⟨x, i, hold⟩
    · exact absurd (Item.line.inj hnew) h
  · rintro ⟨x, i, hline⟩
    exact ⟨x, i, (keeps_line a b l).body hline⟩

/-- A block that is reserved brings no line. -/
theorem Arena.has_reserve_iff {α : Type} {a : Arena α} {place : Place} {block : Nat} {l : α} :
    (a.reserve place block).2.Has l ↔ a.Has l := by
  constructor
  · rintro ⟨x, i, hline⟩
    rcases getElem?_reserve_cases hline with hold | ⟨-, -, hnew⟩
    · exact ⟨x, i, hold⟩
    · cases hnew
  · rintro ⟨x, i, hline⟩
    exact ⟨x, i, (keeps_reserve a place block).body hline⟩

/-- The lines with values that a turn adds are the statement of its job. -/
theorem Job.Writes.has_iff {ctx : Context} {job : Job} {e : Emission} (h : job.Writes ctx e)
    (hopens : e.Opens ctx job.block) {s : Statement} (hs : s.isBare = false) :
    (job.perform ctx e).2.blocks.Has s ↔ e.blocks.Has s ∨ job.statement? ctx = some s := by
  rw [h.quiet.has_iff hs]
  cases job.statement? ctx with
  | none => exact ⟨Or.inl, fun h => h.elim id (by intro h; cases h)⟩
  | some s' =>
      show (e.blocks.line job.block s').Has s ↔ _
      rw [has_line_iff hopens.within, Option.some.injEq, eq_comm]

namespace Writing

variable {ctx : Context}

/-- The blocks of all jobs are there. -/
def Placed (ctx : Context) (w : Writing) : Prop :=
  ∀ job ∈ w.jobs, w.emission.Opens ctx job.block

/-- One turn removes nothing that is written. -/
theorem Placed.keeps_next {w : Writing} (h : w.Placed ctx) :
    w.emission.blocks.Keeps (w.next ctx).emission.blocks := by
  obtain ⟨jobs, e⟩ := w
  cases jobs with
  | nil => exact .refl _
  | cons job rest =>
      have hwrites := Job.writes (h job (List.mem_cons_self ..))
      exact (keeps_lines e.blocks job.block _).trans hwrites.quiet.keeps

/-- **A turn keeps the jobs placed.** -/
theorem Placed.next {w : Writing} (h : w.Placed ctx) : (w.next ctx).Placed ctx := by
  have hkeeps := h.keeps_next
  obtain ⟨jobs, e⟩ := w
  cases jobs with
  | nil => exact h
  | cons job rest =>
      intro job' hjob'
      rcases List.mem_append.1 hjob' with hnew | hold
      · exact (Job.writes (h job (List.mem_cons_self ..))).opens job' hnew
      · exact (h job' (List.mem_cons_of_mem _ hold)).keeps hkeeps

/-- A run keeps what has been written. -/
theorem Placed.keeps_outcome {w : Writing} (h : w.Placed ctx) :
    w.emission.blocks.Keeps (w.outcome ctx).blocks := by
  obtain ⟨k, hk⟩ := exists_end ctx w
  generalize w.outcome ctx = e' at hk
  induction k generalizing w with
  | zero =>
      obtain rfl : w = ⟨[], e'⟩ := hk
      exact .refl _
  | succ k ih => exact h.keeps_next.trans (ih h.next hk)

/-- **The lines of a run.**  The lines with values that a run adds are the
    statements of the jobs that it comes to. -/
theorem has_outcome_iff {w : Writing} (h : w.Placed ctx) {s : Statement} (hs : s.isBare = false) :
    (w.outcome ctx).blocks.Has s
      ↔ w.emission.blocks.Has s ∨ ∃ job, w.Comes ctx job ∧ job.statement? ctx = some s := by
  refine outcome_iff (P := fun e => e.blocks.Has s) (fun w hw => Placed.next hw) ?_ h
  intro job rest e hplaced
  have hopens : e.Opens ctx job.block := hplaced job (List.mem_cons_self ..)
  exact (Job.writes hopens).has_iff hopens hs

end Writing

/-! ## Reads and their uses -/

/-- A job states something with the value of an input. -/
def Job.Uses (ctx : Context) (n : Node) (slot : String) : Job → Prop
  | .assign _ m _ kind _ _ => m = n ∧ slot ∈ kind.slots
  | .leave _ m _ kind => m = n ∧ slot ∈ kind.slots ctx m
  | _ => False

section Using

variable {ctx : Context} {block : Nat} {active : List String} {n : Node} {slot : String}
  {job : Job}

/-- The operand of an input is that of its source, whatever else is read. -/
theorem operand_eq {params : List String} (h : slot ∈ params) :
    ctx.operands n params slot = (ctx.source n slot).operand :=
  operandOf_eq ctx h

/-- The values in the statement of a job are those of the inputs that it
    uses, and literals. -/
theorem Job.mem_operands_statement? {s : Statement} (hs : job.statement? ctx = some s) {o : Operand}
    (ho : o ∈ s.operands) :
    (∃ n slot, job.Uses ctx n slot ∧ o = (ctx.source n slot).operand) ∨ ∃ v, o = .literal v := by
  cases job with
  | assign block n d kind name type =>
      obtain rfl := Option.some.inj hs
      rw [Statement.operands, PureKind.operands_expr] at ho
      obtain ⟨slot, hslot, rfl⟩ := List.mem_map.1 ho
      exact Or.inl ⟨n, slot, ⟨rfl, hslot⟩, operand_eq hslot⟩
  | leave block n d kind =>
      by_cases hpure : ∃ k, kind = .pure k
      · obtain ⟨k, rfl⟩ := hpure
        cases hs
      · rw [(leave_of_not_pure ctx block n d (not_exists.1 hpure) {}).2] at hs
        have hinputs : kind.inputs ctx n = kind.slots ctx n := by
          cases kind with
          | pure k => exact absurd ⟨k, rfl⟩ hpure
          | _ => rfl
        rcases NodeKind.mem_operands_statement? hs ho with ⟨slot, hslot, rfl⟩ | hliteral
        · rw [hinputs] at hslot
          exact Or.inl ⟨n, slot, ⟨rfl, hslot⟩, operand_eq hslot⟩
        · exact Or.inr hliteral
  | visit step => cases hs
  | read block active n param => cases hs
  | compute block active id => cases hs
  | settle id => cases hs
  | endRead => cases hs

/-- Every input that a job uses has its value in the statement of the job. -/
theorem Job.Uses.exists_statement? (h : job.Uses ctx n slot) :
    ∃ s, job.statement? ctx = some s ∧ (ctx.source n slot).operand ∈ s.operands := by
  cases job with
  | assign block m d kind name type =>
      obtain ⟨rfl, hslot⟩ := h
      refine ⟨_, rfl, ?_⟩
      rw [Statement.operands, PureKind.operands_expr, ← operand_eq hslot]
      exact List.mem_map_of_mem hslot
  | leave block m d kind =>
      obtain ⟨rfl, hslot⟩ := h
      have hpure : ∀ k, kind ≠ .pure k := by
        rintro k rfl
        exact absurd hslot List.not_mem_nil
      have hinput : slot ∈ kind.inputs ctx m := by
        cases kind with
        | pure k => exact absurd rfl (hpure k)
        | _ => exact hslot
      obtain ⟨s, hs, ho⟩ : ∃ s, kind.statement? ctx m d (ctx.operands m (kind.slots ctx m)) = some s
          ∧ ctx.operands m (kind.slots ctx m) slot ∈ s.operands :=
        NodeKind.exists_statement?_of_input hinput fun k hk => absurd hk (hpure k)
      refine ⟨s, ?_, ?_⟩
      · rw [(leave_of_not_pure ctx block m d hpure {}).2]
        exact hs
      · rw [← operand_eq hslot]
        exact ho
  | visit step => cases h
  | read block active m param => cases h
  | compute block active id => cases h
  | settle id => cases h
  | endRead => cases h

end Using

/-- Every input that one of some jobs uses is read by another one of them. -/
def Fed (ctx : Context) (jobs : List Job) : Prop :=
  ∀ job ∈ jobs, ∀ n slot, job.Uses ctx n slot → ∃ block active, .read block active n slot ∈ jobs

/-- Every read has a job below it that uses what it reads. -/
def Followed (ctx : Context) : List Job → Prop
  | [] => True
  | job :: rest =>
    (∀ block active n slot, job = .read block active n slot → ∃ job' ∈ rest, job'.Uses ctx n slot)
      ∧ Followed ctx rest

/-- A job that neither reads nor uses an input. -/
def Job.isIdle : Job → Bool
  | .visit _ | .compute .. | .settle _ | .endRead => true
  | _ => false

section Pairing

variable {ctx : Context} {block : Nat} {active : List String} {n : Node} {jobs rest : List Job}

/-- Jobs that are fed stay so among others. -/
theorem Fed.append (h : Fed ctx jobs) (hrest : Fed ctx rest) : Fed ctx (jobs ++ rest) := by
  intro job hjob n slot huses
  rcases List.mem_append.1 hjob with hnew | hold
  · obtain ⟨block, active, hread⟩ := h job hnew n slot huses
    exact ⟨block, active, List.mem_append_left _ hread⟩
  · obtain ⟨block, active, hread⟩ := hrest job hold n slot huses
    exact ⟨block, active, List.mem_append_right _ hread⟩

/-- Reads that are followed stay so above other jobs. -/
theorem Followed.append (h : Followed ctx jobs) (hrest : Followed ctx rest) :
    Followed ctx (jobs ++ rest) := by
  induction jobs with
  | nil => exact hrest
  | cons job jobs ih =>
      refine ⟨?_, ih h.2⟩
      intro block active n slot hread
      obtain ⟨job', hjob', huses⟩ := h.1 block active n slot hread
      exact ⟨job', List.mem_append_left _ hjob', huses⟩

/-- Jobs that use nothing need not be fed. -/
theorem fed_of_idle (h : ∀ job ∈ jobs, job.isIdle = true) : Fed ctx jobs := by
  intro job hjob n slot huses
  have hidle := h job hjob
  cases job with
  | visit step => cases huses
  | compute block active id => cases huses
  | settle id => cases huses
  | endRead => cases huses
  | read block active m param => cases hidle
  | assign block m d kind name type => cases hidle
  | leave block m d kind => cases hidle

/-- Jobs that read nothing need not be followed. -/
theorem followed_of_idle (h : ∀ job ∈ jobs, job.isIdle = true) : Followed ctx jobs := by
  induction jobs with
  | nil => trivial
  | cons job jobs ih =>
      refine ⟨?_, ih fun job' hjob' => h job' (List.mem_cons_of_mem _ hjob')⟩
      rintro block active n slot rfl
      cases h _ (List.mem_cons_self ..)

/-- Reads above a job that uses what they read. -/
theorem fed_reads {params : List String} {job : Job}
    (huses : ∀ m slot, job.Uses ctx m slot ↔ m = n ∧ slot ∈ params) :
    Fed ctx (params.map (.read block active n) ++ [job]) := by
  intro job' hjob' m slot huse
  rcases List.mem_append.1 hjob' with hread | hlast
  · obtain ⟨param, -, rfl⟩ := List.mem_map.1 hread
    cases huse
  · obtain rfl := List.mem_singleton.1 hlast
    obtain ⟨rfl, hslot⟩ := (huses m slot).1 huse
    exact ⟨block, active, List.mem_append_left _ (List.mem_map_of_mem hslot)⟩

/-- Reads ahead of a job that uses them are followed. -/
theorem followed_reads {params : List String} {job : Job} (hjob : Followed ctx [job])
    (huses : ∀ slot ∈ params, job.Uses ctx n slot) :
    Followed ctx (params.map (.read block active n) ++ [job]) := by
  induction params with
  | nil => exact hjob
  | cons param params ih =>
      refine ⟨?_, ih fun slot hslot => huses slot (List.mem_cons_of_mem _ hslot)⟩
      intro block' active' n' slot hread
      obtain ⟨rfl, rfl, rfl, rfl⟩ := Job.read.inj hread
      exact ⟨job, List.mem_append_right _ (List.mem_singleton_self _),
        huses param (List.mem_cons_self ..)⟩

/-- What has to be done to assign a node, or to leave it, is paired. -/
theorem paired_assigning (ctx : Context) (block : Nat) (active : List String) (n : Node) :
    Fed ctx (Job.assigning ctx block active n) ∧ Followed ctx (Job.assigning ctx block active n) := by
  rw [Job.assigning]
  cases ctx.definition? n with
  | none => exact ⟨fed_of_idle fun _ h => absurd h List.not_mem_nil, trivial⟩
  | some d =>
      dsimp only
      split
      · next kind name type hkind hresult =>
        constructor
        · refine fed_reads fun m slot => ?_
          show n = m ∧ slot ∈ kind.slots ↔ _
          rw [eq_comm]
        · refine followed_reads ⟨?_, trivial⟩ fun slot hslot => ⟨rfl, hslot⟩
          intro block active n slot hread
          cases hread
      · exact ⟨fed_of_idle fun _ h => absurd h List.not_mem_nil, trivial⟩

/-- A visit of a node that is not pure is reads and its end. -/
theorem visiting_of_not_pure {d : Definition} {kind : NodeKind} (h : ∀ k, kind ≠ .pure k) :
    Job.visiting ctx block n d kind
      = (kind.slots ctx n).map (.read block [] n) ++ [.leave block n d kind] := by
  cases kind with
  | pure k => exact absurd rfl (h k)
  | _ => simp [Job.visiting]

/-- **A visit reads what it uses and uses what it reads.** -/
theorem paired_visiting (ctx : Context) (block : Nat) (n : Node) (d : Definition)
    (kind : NodeKind) :
    Fed ctx (Job.visiting ctx block n d kind) ∧ Followed ctx (Job.visiting ctx block n d kind) := by
  have hleave : Followed ctx [.leave block n d kind] := by
    refine ⟨?_, trivial⟩
    intro block active n slot hread
    cases hread
  by_cases hpure : ∃ k, kind = .pure k
  · obtain ⟨k, rfl⟩ := hpure
    have hassigning := paired_assigning ctx block [] n
    refine ⟨hassigning.1.append ?_, hassigning.2.append hleave⟩
    intro job hjob m slot huses
    obtain rfl := List.mem_singleton.1 hjob
    exact absurd huses.2 List.not_mem_nil
  · rw [visiting_of_not_pure (not_exists.1 hpure)]
    refine ⟨fed_reads fun m slot => ?_, followed_reads hleave fun slot hslot => ⟨rfl, hslot⟩⟩
    constructor
    · rintro ⟨rfl, hslot⟩
      exact ⟨rfl, hslot⟩
    · rintro ⟨rfl, hslot⟩
      exact ⟨rfl, hslot⟩

/-- **What comes in the place of a job is paired.** -/
theorem paired_perform (ctx : Context) (job : Job) (e : Emission) :
    Fed ctx (job.perform ctx e).1 ∧ Followed ctx (job.perform ctx e).1 := by
  have hidle : (∀ job' ∈ (job.perform ctx e).1, job'.isIdle = true) →
      Fed ctx (job.perform ctx e).1 ∧ Followed ctx (job.perform ctx e).1 :=
    fun h => ⟨fed_of_idle h, followed_of_idle h⟩
  have hfollowing : ∀ v : Visited, ∀ job' ∈ (Job.following v).1, job'.isIdle = true := by
    intro v job' hjob'
    obtain ⟨step, -, rfl⟩ := List.mem_map.1 hjob'
    rfl
  cases job with
  | visit step =>
      by_cases hdone : step.path.contains step.node = true ∨ ctx.index.node? step.node = none
      · apply hidle
        rw [perform_visit_of_done hdone]
        exact fun job' hjob' => absurd hjob' List.not_mem_nil
      · obtain ⟨hnew, hfound⟩ := not_or.1 hdone
        obtain ⟨n, hn⟩ := Option.ne_none_iff_exists'.1 hfound
        rcases perform_visit_of_new hnew hn e with ⟨-, hperform⟩ | ⟨d, kind, -, -, hperform⟩
        · apply hidle
          rw [hperform]
          exact hfollowing _
        · rw [hperform]
          exact paired_visiting ctx step.block n d kind
  | read block active n param =>
      apply hidle
      rw [Job.perform]
      cases ctx.missing? active n param e with
      | none => exact fun job' hjob' => absurd hjob' List.not_mem_nil
      | some id =>
          intro job' hjob'
          rcases List.mem_cons.1 hjob' with rfl | hend
          · rfl
          · split at hend
            · obtain rfl := List.mem_singleton.1 hend
              rfl
            · exact absurd hend List.not_mem_nil
  | compute block active id =>
      rw [Job.perform]
      have hnone : Fed ctx [] ∧ Followed ctx [] :=
        ⟨fed_of_idle fun _ h => absurd h List.not_mem_nil, trivial⟩
      split
      · exact hnone
      · split
        · exact hnone
        · split
          · exact hnone
          · next n hn =>
            have hcomputing : ∀ job' ∈ (ctx.pureDependencies n).map (Job.compute block (id :: active)),
                job'.isIdle = true := by
              intro job' hjob'
              obtain ⟨id', -, rfl⟩ := List.mem_map.1 hjob'
              rfl
            have hsettle : ∀ job' ∈ [Job.settle id], job'.isIdle = true := by
              intro job' hjob'
              obtain rfl := List.mem_singleton.1 hjob'
              rfl
            have hassigning := paired_assigning ctx block (id :: active) n
            exact ⟨((fed_of_idle hcomputing).append hassigning.1).append (fed_of_idle hsettle),
              ((followed_of_idle hcomputing).append hassigning.2).append
                (followed_of_idle hsettle)⟩
  | leave block n d kind =>
      apply hidle
      cases kind with
      | _ => exact hfollowing _
  | assign block n d kind name type => exact hidle fun _ h => absurd h List.not_mem_nil
  | settle id => exact hidle fun _ h => absurd h List.not_mem_nil
  | endRead => exact hidle fun _ h => absurd h List.not_mem_nil

end Pairing

namespace Writing

variable {ctx : Context} {w : Writing} {n : Node} {slot : String}

/-- A run reads an input. -/
def Reads (ctx : Context) (w : Writing) (n : Node) (slot : String) : Prop :=
  ∃ block active, w.Comes ctx (.read block active n slot)

/-- **What a job uses has been read.** -/
theorem Comes.reads {job : Job} (h : Fed ctx w.jobs) (hcomes : w.Comes ctx job)
    (huses : job.Uses ctx n slot) : w.Reads ctx n slot := by
  -- at every turn, what the jobs on the stack use is read at some turn
  have hread : ∀ k, ∀ job ∈ ((Writing.next ctx)^[k] w).jobs, job.Uses ctx n slot →
      w.Reads ctx n slot := by
    intro k
    induction k with
    | zero =>
        intro job hjob huses
        obtain ⟨block, active, hread⟩ := h job hjob n slot huses
        exact ⟨block, active, comes_of_mem hread⟩
    | succ k ih =>
        intro job hjob huses
        rw [Function.iterate_succ_apply'] at hjob
        rcases hw : (Writing.next ctx)^[k] w with ⟨jobs, e⟩
        rw [hw] at hjob ih
        cases jobs with
        | nil => exact absurd hjob List.not_mem_nil
        | cons top rest =>
            rcases List.mem_append.1 hjob with hnew | hold
            · obtain ⟨block, active, hread⟩ := (paired_perform ctx top e).1 job hnew n slot huses
              refine ⟨block, active, Comes.of_iterate (k := k + 1) (comes_of_mem ?_)⟩
              rw [Function.iterate_succ_apply', hw]
              exact List.mem_append_left _ hread
            · exact ih job (List.mem_cons_of_mem _ hold) huses
  obtain ⟨k, rest, e, hk⟩ := hcomes
  refine hread k job ?_ huses
  rw [hk]
  exact List.mem_cons_self ..

/-- One turn keeps reads followed: what it reads goes to the job that follows. -/
theorem followed_next (h : Followed ctx w.jobs) : Followed ctx (w.next ctx).jobs := by
  obtain ⟨jobs, e⟩ := w
  cases jobs with
  | nil => exact h
  | cons job rest => exact (paired_perform ctx job e).2.append h.2

/-- **What is read is used.** -/
theorem Reads.exists_uses (h : Followed ctx w.jobs) (hreads : w.Reads ctx n slot) :
    ∃ job, w.Comes ctx job ∧ job.Uses ctx n slot := by
  have hfollowed : ∀ k, Followed ctx ((Writing.next ctx)^[k] w).jobs := by
    intro k
    induction k with
    | zero => exact h
    | succ k ih =>
        rw [Function.iterate_succ_apply']
        exact followed_next ih
  obtain ⟨block, active, k, rest, e, hk⟩ := hreads
  have hread := hfollowed k
  rw [hk] at hread
  obtain ⟨job, hjob, huses⟩ := hread.1 block active n slot rfl
  refine ⟨job, Comes.of_iterate (k := k) (comes_of_mem ?_), huses⟩
  rw [hk]
  exact List.mem_cons_of_mem _ hjob

end Writing

/-- A value is mentioned in some line. -/
def Arena.Mentions (a : Arena Statement) (o : Operand) : Prop := ∃ s, a.Has s ∧ o ∈ s.operands

section Mentioning

variable {a a' : Arena Statement} {o : Operand} {s : Statement} {b : Nat}

/-- A line with a value is not bare. -/
theorem Statement.isBare_of_mem_operands (h : o ∈ s.operands) : s.isBare = false := by
  rw [← Bool.not_eq_true]
  intro hbare
  rw [operands_of_isBare hbare] at h
  exact absurd h List.not_mem_nil

/-- Nothing is mentioned where nothing is written. -/
theorem Arena.not_mentions_new : ¬(Arena.new : Arena Statement).Mentions o := by
  rintro ⟨s, ⟨x, i, hline⟩, -⟩
  rw [body_new] at hline
  cases hline

/-- Bare lines mention nothing. -/
theorem Arena.Quietly.mentions_iff (h : a.Quietly b a') : a'.Mentions o ↔ a.Mentions o := by
  constructor
  · rintro ⟨s, hhas, ho⟩
    exact ⟨s, (h.has_iff (Statement.isBare_of_mem_operands ho)).1 hhas, ho⟩
  · rintro ⟨s, hhas, ho⟩
    exact ⟨s, (h.has_iff (Statement.isBare_of_mem_operands ho)).2 hhas, ho⟩

/-- A line mentions its operands. -/
theorem Arena.mentions_line_iff (hb : b < a.size) :
    (a.line b s).Mentions o ↔ a.Mentions o ∨ o ∈ s.operands := by
  constructor
  · rintro ⟨s', hhas, ho⟩
    rcases (has_line_iff hb).1 hhas with hold | rfl
    · exact Or.inl ⟨s', hold, ho⟩
    · exact Or.inr ho
  · rintro (⟨s', hhas, ho⟩ | ho)
    · exact ⟨s', (has_line_iff hb).2 (Or.inl hhas), ho⟩
    · exact ⟨s, (has_line_iff hb).2 (Or.inr rfl), ho⟩

/-- **The values of a run.**  The values that a run adds, literals apart, are
    those of the inputs that it reads. -/
theorem Writing.mentions_outcome_iff {ctx : Context} {w : Writing} (hplaced : w.Placed ctx)
    (hfed : Fed ctx w.jobs) (hfollowed : Followed ctx w.jobs) (ho : ∀ v, o ≠ .literal v) :
    (w.outcome ctx).blocks.Mentions o
      ↔ w.emission.blocks.Mentions o
        ∨ ∃ n slot, w.Reads ctx n slot ∧ (ctx.source n slot).operand = o := by
  constructor
  · rintro ⟨s, hhas, hs⟩
    have hbare := Statement.isBare_of_mem_operands hs
    rcases (has_outcome_iff hplaced hbare).1 hhas with hold | ⟨job, hcomes, hstates⟩
    · exact Or.inl ⟨s, hold, hs⟩
    · rcases job.mem_operands_statement? hstates hs with ⟨n, slot, huses, rfl⟩ | ⟨v, hv⟩
      · exact Or.inr ⟨n, slot, hcomes.reads hfed huses, rfl⟩
      · exact absurd hv (ho v)
  · rintro (⟨s, hold, hs⟩ | ⟨n, slot, hreads, rfl⟩)
    · have hbare := Statement.isBare_of_mem_operands hs
      exact ⟨s, (has_outcome_iff hplaced hbare).2 (Or.inl hold), hs⟩
    · obtain ⟨job, hcomes, huses⟩ := hreads.exists_uses hfollowed
      obtain ⟨s, hstates, hs⟩ := huses.exists_statement?
      have hbare := Statement.isBare_of_mem_operands hs
      exact ⟨s, (has_outcome_iff hplaced hbare).2 (Or.inr ⟨job, hcomes, hstates⟩), hs⟩

end Mentioning

end Blueprints
