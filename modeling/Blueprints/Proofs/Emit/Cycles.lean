import Blueprints.Proofs.Emit.Generator
import Blueprints.Proofs.Emit.Reports

/-! # Circles among pure nodes

    To compute a pure node is to search the nodes that it depends on, depth
    first.  Nodes whose computation has begun are active, and to come back to one
    of them is reported; nodes whose temporaries hold their values are skipped.
    The search is exact (`Explores`).

    * What is reported lies on a circle: the active nodes are those from which
      the search has come to the present one.
    * A circle that can be reached is reported.  If nothing is reported, no
      circle is reached from a node that is skipped: all that it depends on was
      searched before, when it was computed on the same path.

    A node can also be on the path since control has come to it.  Where no pure
    node is visited, that is of no account. -/

namespace Blueprints

open Relation (ReflTransGen TransGen)

/-! ## Reports of circles -/

/-- The report that a pure node is needed for its own value. -/
def circleReport (id : String) : Diagnostic :=
  ⟨.shapeAmbiguity, some id, "data cycle: value is read before it is computed"⟩

/-- A circle has been reported at a node. -/
def Emission.Warns (e : Emission) (id : String) : Prop :=
  circleReport id ∈ e.findings.diagnostics

/-- A node is taken for one whose temporary holds its value. -/
def Emission.Knows (e : Emission) (id : String) : Prop := id ∈ e.path.latest ∨ id ∈ e.fresh

/-- A node that is current is taken for done. -/
theorem Emission.knows_of_isCurrent {e : Emission} {ctx : Context} {id : String}
    (h : e.isCurrent ctx id = true) : e.Knows id := by
  cases hreader : ctx.isReader id with
  | true => exact Or.inr ((isCurrent_iff_of_reader hreader e).1 h)
  | false => exact Or.inl ((isCurrent_iff_of_not_reader hreader e).1 h)

/-- To settle a node adds that node alone to those that are taken for done. -/
theorem Emission.knows_settle {e : Emission} {ctx : Context} {id y : String}
    (h : (e.settle ctx id).Knows y) : e.Knows y ∨ y = id := by
  rw [Emission.settle] at h
  split at h
  · rcases h with hpath | hfresh
    · exact Or.inl (Or.inl hpath)
    · rcases List.mem_cons.1 hfresh with rfl | hfresh
      · exact Or.inr rfl
      · exact Or.inl (Or.inr hfresh)
  · rcases h with hpath | hfresh
    · rcases List.mem_cons.1 hpath with rfl | hpath
      · exact Or.inr rfl
      · exact Or.inl (Or.inl hpath)
    · exact Or.inl (Or.inr hfresh)

/-- Other reports are no reports of circles. -/
theorem circleReport_ne {id : String} {kind : DiagnosticKind} {node : Option String}
    {message : String} (h : kind ≠ .shapeAmbiguity ∨ message.toList.head? ≠ some 'd') :
    circleReport id ≠ ⟨kind, node, message⟩ := by
  intro heq
  rw [circleReport, Diagnostic.mk.injEq] at heq
  obtain ⟨rfl, -, rfl⟩ := heq
  rcases h with hkind | hmessage
  · exact hkind rfl
  · exact hmessage rfl

/-! ## Ends -/

/-- No circle is reached from a node. -/
def Context.Ends (ctx : Context) (id : String) : Prop :=
  ∀ x, ReflTransGen ctx.DependsOn id x → ¬TransGen ctx.DependsOn x x

/-- A circle that is reached from a node is reached from one that it depends on,
    also if the node is on it. -/
theorem Context.ends_of_dependencies {ctx : Context} {id : String}
    (h : ∀ y, ctx.DependsOn id y → ctx.Ends y) : ctx.Ends id := by
  intro x hway hcircle
  rcases hway.cases_head with rfl | ⟨y, hy, hrest⟩
  · obtain ⟨y, hy, hback⟩ := TransGen.head'_iff.1 hcircle
    exact h y hy id hback hcircle
  · exact h y hy x hrest hcircle

/-- No circle is reached from the pure nodes that are taken for done. -/
def Emission.Explored (ctx : Context) (e : Emission) : Prop :=
  ∀ y, ctx.index.isPure ctx.catalog y = true → e.Knows y → ctx.Ends y

/-! ## Searching -/

/-- Between two emissions some nodes were searched.  What was reported lies on a
    circle and is one of them; and if nothing was, none of them is on a circle,
    and what is taken for done leads to none, provided it did not before. -/
structure Explores (ctx : Context) (reached : String → Prop) (e r : Emission) : Prop where
  kept : ∀ {id}, e.Warns id → r.Warns id
  sound : ∀ {id}, r.Warns id → e.Warns id ∨ reached id ∧ TransGen ctx.DependsOn id id
  complete : (∀ id, ¬r.Warns id) → e.Explored ctx →
    r.Explored ctx ∧ ∀ x, reached x → ¬TransGen ctx.DependsOn x x

/-- Two emissions with the same reports of circles, where nothing more is taken
    for done in the second. -/
structure Emission.Calm (e e' : Emission) : Prop where
  knows : ∀ {y}, e'.Knows y → e.Knows y
  warns : ∀ {id}, e'.Warns id ↔ e.Warns id

namespace Emission.Calm

variable {e e' e'' : Emission}

theorem refl (e : Emission) : e.Calm e := ⟨id, Iff.rfl⟩

theorem trans (h : e.Calm e') (h' : e'.Calm e'') : e.Calm e'' :=
  ⟨fun hy => h.knows (h'.knows hy), h'.warns.trans h.warns⟩

/-- A calm step leaves no circle behind nodes that are taken for done. -/
theorem explored {ctx : Context} (h : e.Calm e') (he : e.Explored ctx) : e'.Explored ctx :=
  fun y hpure hy => he y hpure (h.knows hy)

/-- What leaves the path, the readers and the diagnostics as they are is calm. -/
theorem of_eq (hpath : e'.path = e.path) (hfresh : e'.fresh = e.fresh)
    (hdiagnostics : e'.findings.diagnostics = e.findings.diagnostics) : e.Calm e' := by
  refine ⟨fun hy => ?_, fun {id} => ?_⟩
  · rwa [Knows, hpath, hfresh] at hy
  · rw [Warns, hdiagnostics]
    rfl

/-- A report of another kind, or in other words, is no report of a circle. Its first
    letter tells. -/
theorem report {kind : DiagnosticKind} {node message : String}
    (h : kind ≠ .shapeAmbiguity ∨ message.toList.head? ≠ some 'd') (e : Emission) :
    e.Calm (e.report kind node message) :=
  ⟨id, Diagnostics.mem_report_iff.trans (or_iff_left (circleReport_ne h))⟩

/-- The end of a read forgets readers and reports nothing. -/
theorem endRead (e : Emission) : e.Calm e.endRead := by
  refine ⟨fun hy => ?_, Iff.rfl⟩
  rcases hy with hpath | hfresh
  · exact Or.inl hpath
  · cases hfresh

theorem declare (e : Emission) (name type : String) : e.Calm (e.declare name type) :=
  of_eq rfl rfl rfl

theorem emit (e : Emission) (block : Nat) (s : Statement) : e.Calm (e.emit block s) :=
  of_eq rfl rfl rfl

/-- The report about several connections begins with another letter. -/
theorem reportFanIn (e : Emission) (ctx : Context) (n : Node) (slot : String) :
    e.Calm (e.reportFanIn ctx n slot) := by
  rw [Emission.reportFanIn]
  split
  · refine report (Or.inr ?_) e
    simp only [String.toList_append, List.head?_append]
    show some 'i' ≠ some 'd'
    decide
  · exact refl e

/-- The report about a missing value is of another kind. -/
theorem reportNoValue (e : Emission) (ctx : Context) (n : Node) (slot : String) :
    e.Calm (e.reportNoValue ctx n slot) := by
  rw [Emission.reportNoValue]
  split
  · exact report (Or.inl (by decide)) e
  · exact refl e

end Emission.Calm

namespace Explores

variable {ctx : Context} {reached reached' : String → Prop} {e r r' : Emission}

/-- A calm step searches nothing. -/
theorem of_calm (h : e.Calm r) (hnone : ∀ x, ¬reached x) : Explores ctx reached e r where
  kept := h.warns.2
  sound hid := Or.inl (h.warns.1 hid)
  complete _ he := ⟨h.explored he, fun x hx => absurd hx (hnone x)⟩

/-- **Searches can be joined.** If nothing is reported after both, nothing was after
    the first, so the second one starts from nodes that lead to no circle. -/
theorem trans (h : Explores ctx reached e r) (h' : Explores ctx reached' r r') :
    Explores ctx (fun x => reached x ∨ reached' x) e r' where
  kept hid := h'.kept (h.kept hid)
  sound hid := by
    rcases h'.sound hid with hid | ⟨hreached, hcircle⟩
    · rcases h.sound hid with hid | ⟨hreached, hcircle⟩
      · exact Or.inl hid
      · exact Or.inr ⟨Or.inl hreached, hcircle⟩
    · exact Or.inr ⟨Or.inr hreached, hcircle⟩
  complete hnone he := by
    obtain ⟨hr, hfirst⟩ := h.complete (fun id hid => hnone id (h'.kept hid)) he
    obtain ⟨hr', hsecond⟩ := h'.complete hnone hr
    exact ⟨hr', fun x hx => hx.elim (hfirst x) (hsecond x)⟩

theorem congr (h : Explores ctx reached e r) (hiff : ∀ x, reached x ↔ reached' x) :
    Explores ctx reached' e r := by
  rwa [← funext fun x => propext (hiff x)]

/-- A calm step may come ahead of a search. -/
theorem after (h : e.Calm r) (h' : Explores ctx reached r r') : Explores ctx reached e r' where
  kept hid := h'.kept (h.warns.2 hid)
  sound hid := (h'.sound hid).imp_left h.warns.1
  complete hnone he := h'.complete hnone (h.explored he)

/-- A calm step may come behind a search. -/
theorem before (h : Explores ctx reached e r) (h' : r.Calm r') : Explores ctx reached e r' where
  kept hid := h'.warns.2 (h.kept hid)
  sound hid := h.sound (h'.warns.1 hid)
  complete hnone he :=
    (h.complete (fun id hid => hnone id (h'.warns.2 hid)) he).imp_left h'.explored

end Explores

/-! ## Reading and computing -/

/-- What computing the producer of an input can lead to, unless the producer is
    active. -/
def Context.FeedsPast (ctx : Context) (active : List String) (n : Node) (slot x : String) : Prop :=
  ∃ t output kind, ctx.source n slot = .temporary t output kind
    ∧ ctx.index.isPure ctx.catalog output.node = true ∧ output.node ∉ active
    ∧ ReflTransGen ctx.DependsOn output.node x

theorem feedsPast_nil {ctx : Context} {n : Node} {slot x : String} :
    ctx.FeedsPast [] n slot x ↔ ctx.Feeds n slot x := by
  simp only [Context.FeedsPast, Context.Feeds, List.not_mem_nil, not_false_eq_true, true_and]

section Reading

variable {ctx : Context} {computing : String → Emission → Emission} (active : List String)
  {n : Node}

/-- To read an input searches what its producer can lead to, if computing it
    does. -/
theorem explores_readWith {slot : String}
    (h : ∀ {t output kind}, ctx.source n slot = .temporary t output kind →
      ctx.index.isPure ctx.catalog output.node = true →
      ∀ e, Explores ctx (ReflTransGen ctx.DependsOn output.node) e (computing output.node e))
    (e : Emission) :
    Explores ctx (ctx.FeedsPast active n slot) e (readWith ctx computing active n slot e).2 := by
  have hfan := Emission.Calm.reportFanIn e ctx n slot
  rw [readWith]
  cases hsource : ctx.source n slot with
  | literal | parameter =>
      refine .of_calm hfan ?_
      rintro x ⟨t, output, kind, hother, -⟩
      cases hsource.symm.trans hother
  | undefined =>
      refine .of_calm (hfan.trans (.reportNoValue ..)) ?_
      rintro x ⟨t, output, kind, hother, -⟩
      cases hsource.symm.trans hother
  | temporary t output kind =>
      have hdeclare := hfan.trans (.declare (e.reportFanIn ctx n slot) t kind.typeName)
      dsimp only
      generalize (e.reportFanIn ctx n slot).declare t kind.typeName = e' at hdeclare
      split
      · next hcompute =>
        simp only [Bool.and_eq_true, Bool.not_eq_true', List.contains_eq_mem,
          decide_eq_false_iff_not] at hcompute
        obtain ⟨⟨hpure, -⟩, hidle⟩ := hcompute
        refine (Explores.after hdeclare (h hsource hpure e')).congr fun x => ?_
        constructor
        · intro hx
          exact ⟨t, output, kind, hsource, hpure, hidle, hx⟩
        · rintro ⟨t', output', kind', hsource', -, -, hx⟩
          obtain ⟨-, rfl, -⟩ := Source.temporary.inj (hsource.symm.trans hsource')
          exact hx
      · next hdone =>
        -- a producer that is pure and idle is current, and was searched before
        have hknown : ∀ {x}, ctx.FeedsPast active n slot x →
            ctx.index.isPure ctx.catalog output.node = true ∧ e'.Knows output.node
              ∧ ReflTransGen ctx.DependsOn output.node x := by
          rintro x ⟨t', output', kind', hsource', hpure, hidle, hx⟩
          obtain ⟨-, rfl, -⟩ := Source.temporary.inj (hsource.symm.trans hsource')
          simp only [Bool.and_eq_true, Bool.not_eq_true', List.contains_eq_mem,
            decide_eq_false_iff_not, hpure, true_and, hidle, not_false_eq_true, and_true,
            Bool.not_eq_false] at hdone
          exact ⟨hpure, Emission.knows_of_isCurrent hdone, hx⟩
        refine ⟨hdeclare.warns.2, fun hid => Or.inl (hdeclare.warns.1 hid), fun _ he => ?_⟩
        refine ⟨hdeclare.explored he, fun x hx => ?_⟩
        obtain ⟨hpure, hknows, hway⟩ := hknown hx
        exact hdeclare.explored he _ hpure hknows x hway

/-- To read inputs searches what the producer of any of them can lead to. By
    induction on the inputs. -/
theorem explores_readAllWith (slots : List String)
    (h : ∀ slot ∈ slots, ∀ {t output kind}, ctx.source n slot = .temporary t output kind →
      ctx.index.isPure ctx.catalog output.node = true →
      ∀ e, Explores ctx (ReflTransGen ctx.DependsOn output.node) e (computing output.node e))
    (e : Emission) :
    Explores ctx (fun x => ∃ slot ∈ slots, ctx.FeedsPast active n slot x) e
      (readAllWith ctx computing active n slots e).2 := by
  induction slots generalizing e with
  | nil =>
      refine .of_calm (.refl e) ?_
      rintro x ⟨_, hnone, -⟩
      cases hnone
  | cons slot rest ih =>
      have hfirst : Explores ctx (ctx.FeedsPast active n slot) e
          (readWith ctx computing active n slot e).2 :=
        explores_readWith active (h slot (List.mem_cons_self ..)) e
      have hrest := ih (fun slot' hslot' => h slot' (List.mem_cons_of_mem _ hslot'))
        (readWith ctx computing active n slot e).2
      refine (hfirst.trans hrest).congr fun x => ?_
      simp only [List.mem_cons, exists_eq_or_imp]

/-- To compute nodes one after the other searches what any of them depends on. By
    induction on the nodes. -/
theorem explores_foldl (ids : List String)
    (h : ∀ id ∈ ids, ∀ e, Explores ctx (ReflTransGen ctx.DependsOn id) e (computing id e))
    (e : Emission) :
    Explores ctx (fun x => ∃ id ∈ ids, ReflTransGen ctx.DependsOn id x) e
      (ids.foldl (fun e id => computing id e) e) := by
  induction ids generalizing e with
  | nil =>
      refine .of_calm (.refl e) ?_
      rintro x ⟨_, hnone, -⟩
      cases hnone
  | cons id rest ih =>
      have hfirst := h id (List.mem_cons_self ..) e
      have hrest := ih (fun id' hid' => h id' (List.mem_cons_of_mem _ hid')) (computing id e)
      refine (hfirst.trans hrest).congr fun x => ?_
      simp only [List.mem_cons, exists_eq_or_imp]

end Reading

/-- A node is settled when what it depends on was searched. -/
theorem Explores.settle {ctx : Context} {reached : String → Prop} {e r : Emission} {id : String}
    (h : Explores ctx reached e r)
    (hreached : ∀ x, reached x → ReflTransGen ctx.DependsOn id x)
    (hdone : ∀ y, ctx.DependsOn id y → ∀ x, ReflTransGen ctx.DependsOn y x → reached x) :
    Explores ctx (ReflTransGen ctx.DependsOn id) e (r.settle ctx id) := by
  have hwarns : ∀ {x}, (r.settle ctx id).Warns x ↔ r.Warns x := by
    intro x
    rw [Emission.Warns, Emission.untouched_diagnostics.settle ctx id r]
    rfl
  refine ⟨fun hx => hwarns.2 (h.kept hx), fun hx => ?_, fun hnone he => ?_⟩
  · exact (h.sound (hwarns.1 hx)).imp_right (And.imp_left (hreached _))
  · obtain ⟨hr, hnocircle⟩ := h.complete (fun x hx => hnone x (hwarns.2 hx)) he
    have hends : ctx.Ends id := Context.ends_of_dependencies fun y hy x hx =>
      hnocircle x (hdone y hy x hx)
    refine ⟨fun y hpure hy => ?_, hends⟩
    rcases Emission.knows_settle hy with hy | rfl
    · exact hr y hpure hy
    · exact hends

/-- **The search for circles is exact**, by recursion on the nodes that are not
    active: the active nodes lead to the present one. -/
theorem explores_compute {ctx : Context} (complete : ctx.Complete) (b : Nat)
    (active : List String) (id : String) (hpure : ctx.index.isPure ctx.catalog id = true)
    (hactive : ∀ a ∈ active, TransGen ctx.DependsOn a id) (e : Emission) :
    Explores ctx (ReflTransGen ctx.DependsOn id) e (compute ctx b active id e) := by
  cases hcur : e.isCurrent ctx id with
  | true =>
      rw [compute, if_pos hcur]
      exact ⟨fun hid => hid, Or.inl, fun _ he =>
        ⟨he, he id hpure (Emission.knows_of_isCurrent hcur)⟩⟩
  | false =>
      by_cases hidle : id ∈ active
      · rw [compute, if_neg (by rw [hcur]; exact Bool.false_ne_true), dif_pos hidle]
        refine ⟨fun hid => Diagnostics.mem_report_iff.2 (Or.inl hid), fun {x} hx => ?_,
          fun hnone => absurd (Diagnostics.mem_report_iff.2 (Or.inr rfl)) (hnone id)⟩
        rcases Diagnostics.mem_report_iff.1 hx with hold | hnew
        · exact Or.inl hold
        · obtain rfl : x = id := Option.some.inj (congrArg Diagnostic.node hnew)
          exact Or.inr ⟨.refl, hactive x hidle⟩
      · obtain ⟨p⟩ := complete.pureNode hpure
        have hsmaller : (unlisted ctx.index.nodeIds (id :: active)).length
            < (unlisted ctx.index.nodeIds active).length :=
          length_unlisted_lt (fun _ h => List.mem_cons_of_mem _ h)
            (Index.mem_nodeIds_of_node? p.found) hidle (List.mem_cons_self ..)
        have hdepends : ∀ y ∈ ctx.pureDependencies p.node, ctx.DependsOn id y :=
          fun y hy => ⟨p.node, p.found, hy⟩
        have hrecursion : ∀ y ∈ ctx.pureDependencies p.node, ∀ e,
            Explores ctx (ReflTransGen ctx.DependsOn y) e (compute ctx b (id :: active) y e) := by
          intro y hy e
          obtain ⟨d, -, hpure', -⟩ := mem_pureDependencies.1 hy
          refine explores_compute complete b (id :: active) y hpure' (fun a ha => ?_) e
          rcases List.mem_cons.1 ha with rfl | ha
          · exact .single (hdepends y hy)
          · exact (hactive a ha).tail (hdepends y hy)
        -- first the nodes that it depends on, then the inputs, which lead to the same ones
        have hsearch := explores_foldl (ctx.pureDependencies p.node) hrecursion e
        have hread := explores_readAllWith (id :: active) p.kind.slots
          (fun slot hslot {t output kind} hsource hpure' =>
            hrecursion output.node (p.dependsOn complete hslot hsource hpure'))
          ((ctx.pureDependencies p.node).foldl (fun e y => compute ctx b (id :: active) y e) e)
        obtain ⟨value, -, hassign⟩ := assignWith_eq p (compute ctx b (id :: active)) (id :: active)
          b ((ctx.pureDependencies p.node).foldl (fun e y => compute ctx b (id :: active) y e) e)
        rw [compute_of_node hcur hidle p.found, hassign]
        have hassigned := (hsearch.trans hread).before
          ((Emission.Calm.declare _ p.temporary p.type).trans (.emit _ b (.assign p.temporary value)))
        refine hassigned.settle ?_ ?_
        · rintro x (⟨y, hy, hx⟩ | ⟨slot, hslot, t, output, kind, hsource, hpure', -, hx⟩)
          · exact .head (hdepends y hy) hx
          · exact .head (hdepends _ (p.dependsOn complete hslot hsource hpure')) hx
        · rintro y ⟨n, hn, hy⟩ x hx
          obtain rfl : p.node = n := Option.some.inj (p.found.symm.trans hn)
          exact Or.inl ⟨y, hy, hx⟩
termination_by (unlisted ctx.index.nodeIds active).length

/-! ## Visits -/

/-- The visit of a node reads an input: one that its kind is written with, or
    that a pure node takes its value from. -/
def Context.Asks (ctx : Context) (n : Node) (slot : String) : Prop :=
  ∃ kind, ctx.catalog.kind? n = some kind
    ∧ (slot ∈ kind.slots ctx n ∨ ∃ k, kind = .pure k ∧ slot ∈ k.slots)

section Visiting

variable {ctx : Context} (complete : ctx.Complete)

include complete

/-- To compute a node with none active searches all that it depends on. -/
theorem explores_computeOnce (b : Nat) (id : String)
    (hpure : ctx.index.isPure ctx.catalog id = true) (e : Emission) :
    Explores ctx (ReflTransGen ctx.DependsOn id) e (computeOnce ctx b id e) :=
  (explores_compute complete b [] id hpure (fun _ ha => absurd ha List.not_mem_nil) e).before
    (.endRead _)

/-- To read an input searches all that its producer depends on. -/
theorem explores_readInput (b : Nat) (n : Node) (slot : String) (e : Emission) :
    Explores ctx (ctx.Feeds n slot) e (readInput ctx n slot b e).2 :=
  (explores_readWith [] (fun _ hpure => explores_computeOnce complete b _ hpure) e).congr
    fun _ => feedsPast_nil

theorem explores_readInputs (b : Nat) (n : Node) (slots : List String) (e : Emission) :
    Explores ctx (fun x => ∃ slot ∈ slots, ctx.Feeds n slot x) e
      (readInputs ctx n slots b e).2 := by
  refine (explores_readAllWith [] slots (fun _ _ _ _ _ _ hpure =>
    explores_computeOnce complete b _ hpure) e).congr fun x => ?_
  simp only [feedsPast_nil]

omit complete in
/-- **Beyond what it reads, a visit searches nothing**, unless its node is pure. -/
theorem calm_visitKind {n : Node} {d : Definition} {kind : NodeKind}
    (hpure : ∀ k, kind ≠ .pure k) (operand : String → Operand) (block : Nat) (e : Emission) :
    e.Calm (visitKind ctx n d kind operand block e).2 := by
  by_cases hreturn : kind = .functionReturn
  · subst hreturn
    exact .of_eq rfl rfl rfl
  · refine .of_eq ?_ (unwritten_fresh.uncoded.visitKind hpure hreturn operand block e)
      (Emission.untouched_diagnostics.uncoded.visitKind hpure hreturn operand block e)
    cases kind with
    | pure k => exact absurd rfl (hpure k)
    | _ => simp [visitKind]

/-- **The visit of a node that is not pure searches what its inputs lead to.** -/
theorem explores_visit {n : Node} (hpure : ∀ k, ctx.catalog.kind? n ≠ some (.pure k))
    (block : Nat) (e : Emission) :
    Explores ctx (fun x => ∃ slot, ctx.Asks n slot ∧ ctx.Feeds n slot x) e
      (visit ctx n block e).2 := by
  have hgoOn : ∀ (connections : List Connection) (e : Emission),
      e.Calm (goOn block connections e).2 := fun connections e =>
    .of_eq (path_goOn ..) (unwritten_fresh.uncoded.goOn ..)
      (Emission.untouched_diagnostics.uncoded.goOn ..)
  rw [visit]
  cases hd : ctx.definition? n with
  | none =>
      have hreport : e.Calm (e.report .reference n.id
          s!"definition '{n.definitionId}' is not in the catalog") :=
        .report (Or.inl (by decide)) e
      refine .of_calm (hreport.trans (.emit ..)) ?_
      rintro x ⟨slot, ⟨kind, hkind, -⟩, -⟩
      obtain ⟨d, hd', -⟩ := exists_definition_of_kind? hkind
      cases hd.symm.trans hd'
  | some d =>
      dsimp only
      cases hof : NodeKind.ofDefinition? d.id with
      | none =>
          have hreport : e.Calm (e.report .unsupportedKind n.id
              s!"no emitter for node type '{d.id}'") :=
            .report (Or.inl (by decide)) e
          refine .of_calm ((hreport.trans (.emit ..)).trans (hgoOn ..)) ?_
          rintro x ⟨slot, ⟨kind, hkind, -⟩, -⟩
          obtain ⟨d', hd', hof'⟩ := exists_definition_of_kind? hkind
          obtain rfl := Option.some.inj (hd.symm.trans hd')
          cases hof.symm.trans hof'
      | some kind =>
          have hkind : ctx.catalog.kind? n = some kind := by
            rw [Catalog.kind?, ← Context.definition?, hd]
            exact hof
          have hannounce : e.Calm (e.announce ctx n d kind block) :=
            .of_eq (path_announce ..) (unwritten_fresh.announce ..)
              (Emission.untouched_diagnostics.announce ..)
          have hread := Explores.after hannounce
            (explores_readInputs complete block n (kind.slots ctx n) (e.announce ctx n d kind block))
          refine (hread.before (calm_visitKind (fun k hk => hpure k (hk ▸ hkind)) _ block _)).congr
            fun x => ?_
          constructor
          · rintro ⟨slot, hslot, hx⟩
            exact ⟨slot, ⟨kind, hkind, Or.inl hslot⟩, hx⟩
          · rintro ⟨slot, ⟨kind', hkind', hslot | ⟨k, rfl, -⟩⟩, hx⟩
            · obtain rfl := Option.some.inj (hkind.symm.trans hkind')
              exact ⟨slot, hslot, hx⟩
            · exact absurd hkind' (hpure k)

end Visiting

/-! ## Walks -/

/-- Between two lists of reports, inputs were read.  What was reported lies on a
    circle that one of them leads to; and if nothing was, none of them leads to a
    circle. -/
structure Covers (ctx : Context) (reads : Node → String → Prop) (ds ds' : Diagnostics) :
    Prop where
  kept : ∀ {id}, circleReport id ∈ ds → circleReport id ∈ ds'
  sound : ∀ {id}, circleReport id ∈ ds' → circleReport id ∈ ds
    ∨ ∃ n slot, reads n slot ∧ ctx.Feeds n slot id ∧ TransGen ctx.DependsOn id id
  complete : (∀ id, circleReport id ∉ ds') → ∀ {n slot x}, reads n slot → ctx.Feeds n slot x →
    ¬TransGen ctx.DependsOn x x

namespace Covers

variable {ctx : Context} {reads reads' : Node → String → Prop} {ds ds' ds'' : Diagnostics}

/-- Where nothing is read, the reports stay. -/
theorem of_same (hsame : ∀ id, circleReport id ∈ ds' ↔ circleReport id ∈ ds)
    (hnone : ∀ n slot, ¬reads n slot) : Covers ctx reads ds ds' where
  kept := (hsame _).2
  sound hid := Or.inl ((hsame _).1 hid)
  complete _ _ _ _ hreads := absurd hreads (hnone _ _)

/-- **Covers can be joined.** If nothing is reported after both, nothing was after
    the first. -/
theorem trans (h : Covers ctx reads ds ds') (h' : Covers ctx reads' ds' ds'') :
    Covers ctx (fun n slot => reads n slot ∨ reads' n slot) ds ds'' where
  kept hid := h'.kept (h.kept hid)
  sound hid := by
    rcases h'.sound hid with hid | ⟨n, slot, hreads, hcircle⟩
    · rcases h.sound hid with hid | ⟨n, slot, hreads, hcircle⟩
      · exact Or.inl hid
      · exact Or.inr ⟨n, slot, Or.inl hreads, hcircle⟩
    · exact Or.inr ⟨n, slot, Or.inr hreads, hcircle⟩
  complete hnone n slot x hreads := by
    rcases hreads with hreads | hreads
    · exact h.complete (fun id hid => hnone id (h'.kept hid)) hreads
    · exact h'.complete hnone hreads

theorem congr (h : Covers ctx reads ds ds') (hiff : ∀ n slot, reads n slot ↔ reads' n slot) :
    Covers ctx reads' ds ds' := by
  rwa [← funext fun n => funext fun slot => propext (hiff n slot)]

end Covers

/-- A search from inputs covers them, where what is taken for done leads to no
    circle. -/
theorem Explores.covers {ctx : Context} {reads : Node → String → Prop} {e r : Emission}
    (h : Explores ctx (fun x => ∃ n slot, reads n slot ∧ ctx.Feeds n slot x) e r)
    (he : e.Explored ctx) : Covers ctx reads e.findings.diagnostics r.findings.diagnostics where
  kept := h.kept
  sound hid := by
    rcases h.sound hid with hid | ⟨⟨n, slot, hreads, hfeeds⟩, hcircle⟩
    · exact Or.inl hid
    · exact Or.inr ⟨n, slot, hreads, hfeeds, hcircle⟩
  complete hnone n slot x hreads hfeeds := (h.complete hnone he).2 x ⟨n, slot, hreads, hfeeds⟩

section Walking

variable {ctx : Context} (complete : ctx.Complete)

include complete

/-- A visit as a search, at a step to a node that is not pure. -/
theorem explores_visited {step : Step} {n : Node}
    (hn : ctx.index.node? step.node = some n)
    (hpure : ctx.index.isPure ctx.catalog step.node = false) (e : Emission) :
    Explores ctx (fun x => ∃ m slot, (m = n ∧ ctx.Asks m slot) ∧ ctx.Feeds m slot x)
      (e.onPath (step.path.extend step.node)) (step.visited ctx n e).2 := by
  refine (explores_visit complete (fun k hkind => ?_) step.block
    (e.onPath (step.path.extend step.node))).congr fun x => ?_
  · obtain ⟨d, hd, hof⟩ := exists_definition_of_kind? hkind
    rw [isPure_of_kind hn hd hof] at hpure
    cases hpure
  · simp only [and_assoc, exists_eq_left, exists_and_left]

/-- A walk takes no report of a circle back. -/
theorem warns_walk {stack : List Step} {e : Emission}
    (hpure : ∀ v ∈ visits ctx stack e, ctx.index.isPure ctx.catalog v.1.node = false)
    {id : String} (h : e.Warns id) : (walk ctx stack e).Warns id := by
  fun_induction visits ctx stack e with
  | case1 e =>
      rw [walk_nil]
      exact h
  | case2 e step rest hdone ih =>
      rw [walk_cons_of_done (Or.inl hdone)]
      exact ih hpure h
  | case3 e step rest hnew hnone ih =>
      rw [walk_cons_of_done (Or.inr hnone)]
      exact ih hpure h
  | case4 e step rest hnew n hn visited ih =>
      rw [walk_cons_of_new hnew hn]
      refine ih (fun v hv => hpure v (List.mem_cons_of_mem _ hv)) ?_
      exact (explores_visited complete hn (hpure _ (List.mem_cons_self ..)) e).kept h

/-- **A walk searches what the inputs of its visits lead to**, if none of the
    visited nodes is pure and its steps start on paths from which no circle is
    reached. -/
theorem covers_walk {stack : List Step} {e : Emission}
    (hpure : ∀ v ∈ visits ctx stack e, ctx.index.isPure ctx.catalog v.1.node = false)
    (hfresh : e.fresh = [])
    (hpaths : (∀ id, ¬(walk ctx stack e).Warns id) → ∀ step ∈ stack, ∀ y ∈ step.path.latest,
      ctx.index.isPure ctx.catalog y = true → ctx.Ends y) :
    Covers ctx (fun n slot => ∃ v ∈ visits ctx stack e, n = v.2 ∧ ctx.Asks n slot)
      e.findings.diagnostics (walk ctx stack e).findings.diagnostics := by
  fun_induction visits ctx stack e with
  | case1 e =>
      rw [walk_nil]
      refine .of_same (fun _ => Iff.rfl) ?_
      rintro n slot ⟨v, hv, -⟩
      cases hv
  | case2 e step rest hdone ih =>
      rw [walk_cons_of_done (Or.inl hdone)] at hpaths ⊢
      exact ih hpure hfresh fun hnone step hstep => hpaths hnone step (List.mem_cons_of_mem _ hstep)
  | case3 e step rest hnew hnone ih =>
      rw [walk_cons_of_done (Or.inr hnone)] at hpaths ⊢
      exact ih hpure hfresh fun hnone step hstep => hpaths hnone step (List.mem_cons_of_mem _ hstep)
  | case4 e step rest hnew n hn visited ih =>
      rw [walk_cons_of_new hnew hn] at hpaths ⊢
      have hfirst := hpure _ (List.mem_cons_self ..)
      have hothers := fun v hv => hpure v (List.mem_cons_of_mem _ hv)
      have hvisit := explores_visited complete hn hfirst e
      -- what is on the path of the step leads to no circle, nor does the step itself
      have hexplored : (∀ id, ¬(walk ctx (visited.steps ++ rest) visited.2).Warns id) →
          (e.onPath (step.path.extend step.node)).Explored ctx := by
        rintro hnone y hy (hpath | hin)
        · rcases List.mem_cons.1 hpath with rfl | hpath
          · rw [hfirst] at hy
            cases hy
          · exact hpaths hnone step (List.mem_cons_self ..) y hpath hy
        · rw [show (e.onPath (step.path.extend step.node)).fresh = [] from hfresh] at hin
          cases hin
      have hsearched : (∀ id, ¬(walk ctx (visited.steps ++ rest) visited.2).Warns id) → _ :=
        fun hnone => hvisit.complete (fun id hid => hnone id (warns_walk complete hothers hid))
          (hexplored hnone)
      have hrest := ih hothers (fresh_visit hfresh) fun hnone step' hstep' y hy hpure' => by
        rcases List.mem_append.1 hstep' with hexit | hrest
        · obtain ⟨x, -, rfl⟩ := List.mem_map.1 hexit
          exact (hsearched hnone).1 y hpure' (Or.inl hy)
        · exact hpaths hnone step' (List.mem_cons_of_mem _ hrest) y hy hpure'
      refine ⟨fun hid => hrest.kept (hvisit.kept hid), fun hid => ?_,
        fun hnone m slot x hreads hfeeds => ?_⟩
      · rcases hrest.sound hid with hid | ⟨m, slot, ⟨v, hv, hreads⟩, hcircle⟩
        · rcases hvisit.sound hid with hid | ⟨⟨m, slot, hreads, hfeeds⟩, hcircle⟩
          · exact Or.inl hid
          · exact Or.inr ⟨m, slot, ⟨_, List.mem_cons_self .., hreads⟩, hfeeds, hcircle⟩
        · exact Or.inr ⟨m, slot, ⟨v, List.mem_cons_of_mem _ hv, hreads⟩, hcircle⟩
      · obtain ⟨v, hv, hreads⟩ := hreads
        rcases List.mem_cons.1 hv with rfl | hv
        · exact (hsearched hnone).2 x ⟨m, slot, hreads, hfeeds⟩
        · exact hrest.complete hnone ⟨v, hv, hreads⟩ hfeeds

end Walking

end Blueprints
