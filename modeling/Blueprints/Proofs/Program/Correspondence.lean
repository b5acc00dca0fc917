import Mathlib.Data.List.Forall2
import Blueprints.Compile
import Blueprints.Proofs.Emit.Correspondence

/-! # Units that correspond

    Compilations in contexts that correspond write routines that are alike, so
    they give functions that are alike, or methods that are alike for the same
    hooks (`FunctionUnit.like_build`, `ComponentUnit.like_build`). -/

namespace Blueprints

variable {L : Likeness} {φ : Node → Node} {ctx ctx' : Context} {e e' : Emission} {f f' : Findings}

/-! ## Functions -/

/-- The bodies of functions are alike: both start at the same nodes, or at none. -/
theorem like_writeFunctionBody (h : ctx.Corresponds L φ ctx')
    (hstart : L.findings (danglingReports ctx) (danglingReports ctx')) :
    (writeFunctionBody ctx).Like L (writeFunctionBody ctx') := by
  have hentries : ctx'.blueprint.nodes.filter ctx'.isFunctionEntry
      = (ctx.blueprint.nodes.filter ctx.isFunctionEntry).map φ := by
    refine h.filter_nodes ?_
    intro n hn
    rw [Context.isFunctionEntry, Context.isFunctionEntry, h.kind? hn]
  rw [writeFunctionBody, writeFunctionBody, hentries]
  cases ctx.blueprint.nodes.filter ctx.isFunctionEntry with
  | nil => exact (Emission.Like.start hstart).emit Arena.root _
  | cons entry more => exact like_writeRoutine h hstart (entry :: more)

/-- Both give back the value of the same node. -/
theorem like_returnNode? (h : ctx.Corresponds L φ ctx') {r r' : Routine}
    (hr : L.routines r r') : returnNode? ctx' r' = (returnNode? ctx r).map φ := by
  rw [returnNode?, returnNode?, h.nodesOfKind, L.returnNode hr]
  cases r.returnNode with
  | none => simp
  | some id =>
      simp only [Option.bind_some, h.node?]
      cases ctx.index.node? id with
      | none => simp
      | some n => rfl

theorem mem_nodes_of_returnNode? (h : ctx.Corresponds L φ ctx') {r : Routine} {n : Node}
    (hn : returnNode? ctx r = some n) : n ∈ ctx.blueprint.nodes := by
  rw [returnNode?] at hn
  rcases Option.or_eq_some_iff.1 hn with hnoted | ⟨-, hfirst⟩
  · obtain ⟨id, -, hfound⟩ := Option.bind_eq_some_iff.1 hnoted
    exact h.found id n hfound
  · exact List.mem_of_mem_filter (List.mem_of_mem_head? hfirst)

/-- **The returns are alike**: both report, read and write the same. -/
theorem like_writeReturn (h : ctx.Corresponds L φ ctx') (he : e.Like L e') :
    LikeWith L (writeReturn ctx e) (writeReturn ctx' e') := by
  rw [writeReturn, writeReturn, like_returnNode? h he.routine]
  cases hreturn : returnNode? ctx e.routine with
  | none => exact ⟨rfl, he⟩
  | some n =>
      have hn := mem_nodes_of_returnNode? h hreturn
      dsimp only [Option.map_some]
      rw [h.source hn, h.nodesOfKind, List.length_map, h.faithful.id]
      -- both report a second return node or neither does; what follows is the same
      generalize hreported : (if (ctx.nodesOfKind .functionReturn).length > 1 then
        e.report _ n.id _ else e) = reported
      generalize hreported' : (if (ctx.nodesOfKind .functionReturn).length > 1 then
        e'.report _ n.id _ else e') = reported'
      have hsame : reported.Like L reported' := by
        rw [← hreported, ← hreported']
        split
        · exact he.report ..
        · exact he
      cases (ctx.source n "value").type? with
      | none => exact ⟨rfl, hsame⟩
      | some type =>
          have hread := like_readWith h (like_computeOnce h Arena.root) [] hn "value"
            (hsame.space.onPath .empty)
          dsimp only
          rw [readInput, readInput, hread.result]
          exact ⟨rfl, hread.emission.emit Arena.root _⟩

/-- Functions with the same signature, whose routines and findings are
    alike. -/
structure FunctionUnit.Like (L : Likeness) (u u' : FunctionUnit) : Prop where
  routine : L.routines u.routine u'.routine
  parameters : u'.parameters = u.parameters
  returnType : u'.returnType = u.returnType
  findings : L.findings u.findings u'.findings

/-- Both take the same parameters. -/
theorem like_functionParameters (h : ctx.Corresponds L φ ctx') :
    functionParameters ctx' = functionParameters ctx := by
  rw [functionParameters, functionParameters, h.nodesOfKind, List.filterMap_map]
  refine List.filterMap_congr fun n hn => ?_
  simp only [Function.comp, h.definition? n (List.mem_of_mem_filter hn), h.faithful.parameterName,
    h.faithful.parameterType, h.faithful.literal?]

/-- **Functions that are built in contexts that correspond are alike.** -/
theorem FunctionUnit.like_build (h : ctx.Corresponds L φ ctx')
    (hstart : L.findings (danglingReports ctx) (danglingReports ctx')) :
    (build ctx).Like L (build ctx') := by
  have hreturn := like_writeReturn h (like_writeFunctionBody h hstart)
  exact ⟨hreturn.emission.routine, like_functionParameters h, hreturn.result,
    hreturn.emission.findings⟩

/-- Functions that are alike to the point of equality are equal. -/
theorem FunctionUnit.Like.eq {u u' : FunctionUnit} (h : u.Like .same u') : u' = u := by
  obtain ⟨routine, parameters, returnType, findings⟩ := u
  obtain ⟨rfl, rfl, rfl, rfl⟩ := h
  rfl

/-! ## Components -/

/-- Methods of the same hook, whose routines are alike. -/
structure Method.Like (L : Likeness) (m m' : Method) : Prop where
  hook : m'.hook = m.hook
  routine : L.routines m.routine m'.routine

/-- Both enter a hook by the same nodes. -/
theorem like_hookEntries (h : ctx.Corresponds L φ ctx') (hook : Hook) :
    hookEntries ctx' hook = (hookEntries ctx hook).map φ := by
  rw [hookEntries, hookEntries, h.nodesOfKind, List.filter_map]
  congr 1
  refine List.filter_congr fun n hn => ?_
  have hmem := List.mem_of_mem_filter hn
  simp only [Function.comp]
  rw [h.definition? n hmem]
  cases hd : ctx.definition? n with
  | none => rfl
  | some d =>
      have hleaving : ctx'.index.execLeaving (φ n) d = ctx.index.execLeaving n d := by
        rw [← (h.ways n hmem d hd).leaving, Index.execLeaving, Index.execLeaving, h.faithful.id]
      dsimp only
      rw [hleaving]

/-- A return that a hook cannot have is reported in both or in neither. -/
theorem like_reportReturn (hook : Hook) {r r' : Routine} (hr : L.routines r r')
    (hf : L.findings f f') : L.findings (reportReturn hook r f) (reportReturn hook r' f') := by
  rw [reportReturn, reportReturn, L.returnNode hr]
  cases r.returnNode with
  | none => exact hf
  | some id => exact L.report hf _

/-- **Methods are written alike**, hook by hook. -/
theorem like_writeMethods (h : ctx.Corresponds L φ ctx') (hooks : List Hook)
    (hf : L.findings f f') :
    List.Forall₂ (Method.Like L) (writeMethods ctx hooks f).1 (writeMethods ctx' hooks f').1
      ∧ L.findings (writeMethods ctx hooks f).2 (writeMethods ctx' hooks f').2 := by
  induction hooks generalizing f f' with
  | nil => exact ⟨.nil, hf⟩
  | cons hook rest ih =>
      rw [writeMethods, writeMethods, like_hookEntries h]
      cases hookEntries ctx hook with
      | nil => exact ih hf
      | cons entry more =>
          -- the findings go from one hook to the next
          have hroutine := like_writeRoutine h hf (entry :: more)
          obtain ⟨hmethods, hfindings⟩ :=
            ih (like_reportReturn hook hroutine.routine hroutine.findings)
          exact ⟨.cons ⟨rfl, hroutine.routine⟩ hmethods, hfindings⟩

/-- Components with the same hooks, whose methods and findings are alike. -/
structure ComponentUnit.Like (L : Likeness) (u u' : ComponentUnit) : Prop where
  methods : List.Forall₂ (Method.Like L) u.methods u'.methods
  findings : L.findings u.findings u'.findings

/-- Where routines that are alike are the same, so are the methods. -/
theorem ComponentUnit.Like.methods_eq {u u' : ComponentUnit} (hL : L.routines = Eq)
    (h : u.Like L u') : u'.methods = u.methods := by
  have hsame : List.Forall₂ Eq u.methods u'.methods := by
    refine h.methods.imp ?_
    rintro ⟨hook, routine⟩ ⟨hook', routine'⟩ ⟨hhook, hroutine⟩
    rw [hL] at hroutine
    obtain rfl : hook' = hook := hhook
    obtain rfl : routine = routine' := hroutine
    rfl
  rw [List.forall₂_eq_eq_eq] at hsame
  exact hsame.symm

theorem ComponentUnit.Like.eq {u u' : ComponentUnit} (h : u.Like .same u') : u' = u := by
  have hmethods := h.methods_eq rfl
  obtain ⟨methods, findings⟩ := u
  obtain ⟨methods', findings'⟩ := u'
  obtain rfl : findings = findings' := h.findings
  obtain rfl : methods' = methods := hmethods
  rfl

/-- **Components that are built in contexts that correspond are alike.** -/
theorem ComponentUnit.like_build (h : ctx.Corresponds L φ ctx')
    (hstart : L.findings (danglingReports ctx) (danglingReports ctx')) :
    (build ctx).Like L (build ctx') := by
  obtain ⟨hmethods, hfindings⟩ := like_writeMethods h Hook.all hstart
  exact ⟨hmethods, hfindings⟩

end Blueprints
