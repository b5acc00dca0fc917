import Mathlib.Data.Set.Insert
import Blueprints.Proofs.Emit.Acts
import Blueprints.Proofs.Emit.Reports

/-! # The comments of a run

    A comment is written in one place only: when a node is visited, ahead of
    its statements or instead of them.  Reading inputs and placing what follows
    a node write code, and a view of the comments does not change by that.  So
    the comments of a walk are those of the nodes that it visits
    (`comments_walk`). -/

namespace Blueprints

open Arena

/-- A comment for a node: what it is, or why that cannot be told. -/
inductive NodeComment where
  | unknown (definition : String)
  | unsupported (definition : String)
  | named (name id : String)

namespace NodeComment

def text : NodeComment → String
  | unknown definition => s!"Unknown node type: {definition}"
  | unsupported definition => s!"Unsupported node type: {definition}"
  | named name id => s!"{name} ({id})"

/-- The texts that a comment quotes as they are. -/
def quoted : NodeComment → List String
  | unknown definition | unsupported definition => [definition]
  | named name id => [name, id]

end NodeComment

/-- The comment for a node, if there is one. -/
def Context.comment? (ctx : Context) (n : Node) : Option NodeComment :=
  match ctx.definition? n with
  | none => some (.unknown n.definitionId)
  | some d =>
    match NodeKind.ofDefinition? d.id with
    | none => some (.unsupported d.id)
    | some kind =>
      if ctx.options.nodeComments && kind.hasStatements then some (.named d.name n.id) else none

/-- The comments that have been written. -/
def Emission.comments (e : Emission) : Set String := {t | e.blocks.Has (.comment t)}

/-- **Code leaves the comments as they are.** -/
theorem uncoded_comments : Emission.Uncoded Emission.comments := by
  refine ⟨fun e block s hs => ?_, fun e place block => ?_, fun e name type => ?_, fun _ _ => rfl,
    fun _ => rfl, fun _ _ => rfl⟩
  · ext t
    refine has_line_of_ne ?_
    rintro rfl
    cases hs
  · ext t
    exact has_reserve_iff
  · show {t | (e.declare name type).blocks.Has (.comment t)} = _
    rw [Emission.blocks_declare]
    rfl

/-- A comment that is written is added to the comments. -/
theorem comments_comment (e : Emission) {block : Nat} (hblock : block < e.blocks.size)
    (t : String) : (e.emit block (.comment t)).comments = insert t e.comments := by
  ext t'
  show (e.blocks.line block (.comment t)).Has (.comment t') ↔ _
  rw [has_line_iff hblock, Statement.comment.injEq, or_comm]
  rfl

/-! ## Reading -/

/-- Whether a job is part of reading inputs. -/
def Job.isReading : Job → Bool
  | .visit _ | .leave .. => false
  | _ => true

section Reading

variable {ctx : Context} {block : Nat} {active : List String} {n : Node}

/-- An assignment and the reads ahead of it are reading. -/
theorem isReading_assigning {job : Job} (h : job ∈ Job.assigning ctx block active n) :
    job.isReading = true := by
  rcases mem_assigning h with ⟨param, rfl⟩ | ⟨d, kind, name, type, -, -, -, rfl⟩
  · rfl
  · rfl

/-- **A turn of reading leads to more reading**, and writes no comment. -/
theorem reading_perform (ctx : Context) {job : Job} (h : job.isReading = true) (e : Emission) :
    (∀ job' ∈ (job.perform ctx e).1, job'.isReading = true)
      ∧ (job.perform ctx e).2.comments = e.comments := by
  have hnone : ∀ job' ∈ ([] : List Job), job'.isReading = true :=
    fun job' hjob' => absurd hjob' List.not_mem_nil
  cases job with
  | visit step => cases h
  | leave block n d kind => cases h
  | read block active n param =>
      have hnoted : (readWith ctx (fun _ e => e) active n param e).2.comments = e.comments := by
        rw [Emission.comments, (agrees_noted ctx active n param e).blocks]
        rfl
      rw [Job.perform]
      cases ctx.missing? active n param e with
      | none => exact ⟨hnone, hnoted⟩
      | some id =>
          refine ⟨fun job' hjob' => ?_, hnoted⟩
          rcases mem_computing hjob' with rfl | rfl
          · rfl
          · rfl
  | compute block active id =>
      rw [Job.perform]
      split
      · exact ⟨hnone, rfl⟩
      · split
        · exact ⟨hnone, rfl⟩
        · split
          · exact ⟨hnone, rfl⟩
          · refine ⟨fun job' hjob' => ?_, rfl⟩
            rcases List.mem_append.1 hjob' with hbefore | hsettle
            · rcases List.mem_append.1 hbefore with hdependency | hassign
              · obtain ⟨id', -, rfl⟩ := List.mem_map.1 hdependency
                rfl
              · exact isReading_assigning hassign
            · obtain rfl := List.mem_singleton.1 hsettle
              rfl
  | assign block n d kind name type =>
      exact ⟨hnone, (uncoded_comments.emit _ _ _ rfl).trans (uncoded_comments.declare ..)⟩
  | settle id =>
      refine ⟨hnone, ?_⟩
      rw [Job.perform, Emission.settle]
      split
      · rfl
      · rfl
  | endRead => exact ⟨hnone, rfl⟩

/-- Reading writes no comment, however many turns it takes. -/
theorem comments_of_does {jobs : List Job} {e e' : Emission}
    (hjobs : ∀ job ∈ jobs, job.isReading = true) (h : Does ctx jobs e e') :
    e'.comments = e.comments := by
  have hturns : ∀ (k : Nat) (w : Writing), (∀ job ∈ w.jobs, job.isReading = true) →
      ((Writing.next ctx)^[k] w).emission.comments = w.emission.comments := by
    intro k
    induction k with
    | zero => exact fun w _ => rfl
    | succ k ih =>
        rintro ⟨jobs, e⟩ hw
        cases jobs with
        | nil => exact ih ⟨[], e⟩ hw
        | cons job rest =>
            rw [List.forall_mem_cons] at hw
            obtain ⟨hreading, hcomments⟩ := reading_perform ctx hw.1 e
            exact (ih _ (List.forall_mem_append.2 ⟨hreading, hw.2⟩)).trans hcomments
  obtain ⟨k, hk⟩ := h
  have hend := congrArg (fun w => w.emission.comments) (hk [])
  rw [List.append_nil] at hend
  exact hend.symm.trans (hturns k ⟨jobs, e⟩ hjobs)

/-- Reading inputs writes no comment. -/
theorem comments_readInputs (params : List String) (e : Emission) :
    (readInputs ctx n params block e).2.comments = e.comments := by
  refine comments_of_does ?_ (does_reads (n := n) (does_computeOnce ctx block) params e)
  intro job hjob
  obtain ⟨param, -, rfl⟩ := List.mem_map.1 hjob
  rfl

theorem comments_readInput (param : String) (e : Emission) :
    (readInput ctx n param block e).2.comments = e.comments := by
  refine comments_of_does ?_ (does_read (n := n) (does_computeOnce ctx block) param e)
  intro job hjob
  obtain rfl := List.mem_singleton.1 hjob
  rfl

theorem comments_assignPure (e : Emission) :
    (assignPure ctx n block e).comments = e.comments :=
  comments_of_does (fun _ => isReading_assigning) (does_assigning (does_computeOnce ctx block) e)

end Reading

/-! ## Visiting and walking -/

section Visiting

variable {ctx : Context} {n : Node} {block : Nat} {e : Emission}

/-- **The statements of a node hold no comment**: those are written ahead of
    them. -/
theorem comments_visitKind (ctx : Context) (n : Node) (d : Definition) (kind : NodeKind)
    (operand : String → Operand) (block : Nat) (e : Emission) :
    (visitKind ctx n d kind operand block e).2.comments = e.comments := by
  by_cases hpure : ∃ k, kind = .pure k
  · obtain ⟨k, rfl⟩ := hpure
    exact (uncoded_comments.goOn block _ _).trans (comments_assignPure e)
  · by_cases hreturn : kind = .functionReturn
    · rw [hreturn]
      rfl
    · exact uncoded_comments.visitKind (not_exists.1 hpure) hreturn operand block e

/-- **A visit writes the comment for its node.** -/
theorem comments_visit (hblock : block < e.blocks.size) :
    (visit ctx n block e).2.comments
      = e.comments ∪ {t | ∃ c ∈ ctx.comment? n, c.text = t} := by
  have hone : ∀ c : NodeComment,
      insert c.text e.comments = e.comments ∪ {t | ∃ c' ∈ some c, c'.text = t} := by
    intro c
    ext t
    simp [eq_comm]
  have hno : e.comments = e.comments ∪ {t | ∃ c ∈ (none : Option NodeComment), c.text = t} := by
    simp
  rw [Context.comment?]
  cases hd : ctx.definition? n with
  | none =>
      rw [visit, hd]
      exact (comments_comment (e.report ..) hblock _).trans (hone (.unknown n.definitionId))
  | some d =>
      dsimp only
      cases hkind : NodeKind.ofDefinition? d.id with
      | none =>
          rw [visit, hd]
          dsimp only
          rw [hkind, follow, uncoded_comments.goOn]
          exact (comments_comment (e.report ..) hblock _).trans (hone (.unsupported d.id))
      | some kind =>
          rw [visit_of_kind hd hkind, comments_visitKind, comments_readInputs, Emission.announce]
          dsimp only
          split
          · exact (comments_comment e hblock _).trans (hone (.named d.name n.id))
          · exact hno

end Visiting

/-- **The comments of a walk** are those of the nodes that it visits. -/
theorem comments_walk {ctx : Context} {stack : List Step} {e : Emission}
    (h : OpensAll ctx stack e) :
    (walk ctx stack e).comments
      = e.comments ∪ {t | ∃ v ∈ visits ctx stack e, ∃ c ∈ ctx.comment? v.2, c.text = t} := by
  fun_induction visits ctx stack e with
  | case1 e => simp [walk_nil]
  | case2 e step rest hdone ih =>
      rw [walk_cons_of_done (Or.inl hdone)]
      exact ih h.tail
  | case3 e step rest hnew hnone ih =>
      rw [walk_cons_of_done (Or.inr hnone)]
      exact ih h.tail
  | case4 e step rest hnew n hn visited ih =>
      have hvisit : visited.2.comments
          = e.comments ∪ {t | ∃ c ∈ ctx.comment? n, c.text = t} := comments_visit h.within
      rw [walk_cons_of_new hnew hn]
      refine (ih (h.visited n)).trans ?_
      rw [hvisit, Set.union_assoc]
      simp only [List.mem_cons, exists_eq_or_imp, Set.ofPred_or]

end Blueprints
