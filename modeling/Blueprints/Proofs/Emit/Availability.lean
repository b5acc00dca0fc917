import Blueprints.Proofs.Code.Places
import Blueprints.Proofs.Emit.Computing

/-! # Which temporaries are assigned at a place

    A temporary is *assigned within* a block before a place if an assignment
    to it stands before the place, in that block or under it.  A place is
    *ready* on a path if every pure node on the path has its temporary
    assigned there, readers of variables and the nodes of a `base` apart.

    Reading keeps a place ready: the nodes that it puts on the path are
    assigned in the block.  With the root of a routine and an empty base this
    says that what is on the path can be used; with the body of a loop and
    the path to the loop it says what is computed anew in the body. -/

namespace Blueprints

open Arena

/-! ## Assigned temporaries -/

/-- An assignment to a temporary stands before a place, in a block or under
    it. -/
def Arena.AssignedWithin (a : Arena Statement) (root : Nat) (t : String) (x i : Nat) : Prop :=
  ∃ c j value, (a.body c)[j]? = some (.line (.assign t value)) ∧ a.Under root c
    ∧ a.Before c j x i

section Assigned

variable {a a' : Arena Statement} {root x i b : Nat} {t : String}

theorem Arena.AssignedWithin.keeps (h : a.AssignedWithin root t x i) (hkeeps : a.Keeps a') :
    a'.AssignedWithin root t x i := by
  obtain ⟨c, j, value, hline, hunder, hbefore⟩ := h
  exact ⟨c, j, value, hkeeps.body hline, hunder.keeps hkeeps, hbefore.keeps hkeeps⟩

theorem Arena.AssignedWithin.mono (h : a.AssignedWithin root t x i) {i' : Nat} (hle : i ≤ i') :
    a.AssignedWithin root t x i' := by
  obtain ⟨c, j, value, hline, hunder, hbefore⟩ := h
  exact ⟨c, j, value, hline, hunder, hbefore.mono hle⟩

/-- What is assigned at the end of a block is assigned in a block that is
    reserved there. -/
theorem Arena.AssignedWithin.child (hb : b < a.size) (place : Place)
    (h : a.AssignedWithin root t b (a.body b).length) (i : Nat) :
    (a.reserve place b).2.AssignedWithin root t a.size i := by
  obtain ⟨c, j, value, hline, hunder, hbefore⟩ := h.keeps (keeps_reserve a place b)
  exact ⟨c, j, value, hline, hunder, .deeper hbefore (getElem?_body_reserve hb place)⟩

/-- Lines that were just written are before the end of their block. -/
theorem Arena.assignedWithin_of_mem_lines (hb : b < a.size) (hunder : a.Under root b)
    {ss : List Statement} {value : Expr} (hmem : .assign t value ∈ ss) :
    (a.lines b ss).AssignedWithin root t b ((a.lines b ss).body b).length := by
  obtain ⟨i, hi, hget⟩ := List.getElem_of_mem hmem
  have hbody := body_lines hb ss
  refine ⟨b, (a.body b).length + i, value, ?_, hunder.keeps (keeps_lines a b ss), .inside ?_⟩
  · rw [hbody, List.getElem?_append_right (Nat.le_add_right _ _), Nat.add_sub_cancel_left,
      List.getElem?_map, List.getElem?_eq_getElem hi, hget]
    rfl
  · rw [hbody, List.length_append, List.length_map]
    omega

end Assigned

/-! ## Ready places -/

/-- The end of a block under `root` is ready on a path: the pure nodes on the
    path are assigned there, readers and the nodes of `base` apart. -/
structure Ready (ctx : Context) (root : Nat) (base : List String) (a : Arena Statement)
    (path : List String) (b : Nat) : Prop where
  within : b < a.size
  under : a.Under root b
  held : ∀ {x t : String}, x ∈ path → ctx.Holds t x → ctx.isReader x = false →
    x ∈ base ∨ a.AssignedWithin root t b (a.body b).length

section Readiness

variable {ctx : Context} {root b : Nat} {base path : List String} {a a' : Arena Statement}

/-- Writing elsewhere leaves a place ready. -/
theorem Ready.keeps (h : Ready ctx root base a path b) (hkeeps : a.Keeps a') :
    Ready ctx root base a' path b where
  within := Nat.lt_of_lt_of_le h.within hkeeps.size
  under := h.under.keeps hkeeps
  held hx hholds hreader := by
    rcases h.held hx hholds hreader with hbase | hassigned
    · exact Or.inl hbase
    · exact Or.inr ((hassigned.keeps hkeeps).mono (hkeeps.length_le b))

/-- A block that is reserved at a ready place starts ready. -/
theorem Ready.child (h : Ready ctx root base a path b) (place : Place) :
    Ready ctx root base (a.reserve place b).2 path a.size where
  within := by
    rw [size_reserve]
    exact Nat.lt_succ_self _
  under := .deeper (h.under.keeps (keeps_reserve a place b))
    (getElem?_body_reserve h.within place)
  held hx hholds hreader := by
    rcases h.held hx hholds hreader with hbase | hassigned
    · exact Or.inl hbase
    · exact Or.inr (hassigned.child h.within place _)

/-- A path may be shortened, and the base be made larger. -/
theorem Ready.imp {path' base' : List String} (h : Ready ctx root base a path b)
    (hpath : ∀ x ∈ path', x ∈ path ∨ x ∈ base') (hbase : ∀ x ∈ base, x ∈ base') :
    Ready ctx root base' a path' b where
  within := h.within
  under := h.under
  held hx hholds hreader := by
    rcases hpath _ hx with hpath | hbase'
    · rcases h.held hpath hholds hreader with hin | hassigned
      · exact Or.inl (hbase _ hin)
      · exact Or.inr hassigned
    · exact Or.inl hbase'

/-- A node whose temporary is assigned need not be in the base. -/
theorem Ready.settle {id : String} (h : Ready ctx root (id :: base) a path b)
    (hid : ∀ {t : String}, ctx.Holds t id → a.AssignedWithin root t b (a.body b).length) :
    Ready ctx root base a path b where
  within := h.within
  under := h.under
  held hx hholds hreader := by
    rcases h.held hx hholds hreader with hbase | hassigned
    · rcases List.mem_cons.1 hbase with rfl | hbase
      · exact Or.inr (hid hholds)
      · exact Or.inl hbase
    · exact Or.inr hassigned

end Readiness

/-- The temporaries of the nodes of a valid log are assigned by it. -/
theorem Log.Valid.assigned {ctx : Context} {active : List String} {reach cur : String → Prop}
    {log : Log} (h : log.Valid ctx active reach cur) {x t : String} (hx : x ∈ log.ids)
    (hholds : ctx.Holds t x) : ∃ value, .assign t value ∈ log.statements := by
  obtain ⟨before, s, after, rfl, hentry⟩ := h.entry hx
  obtain ⟨p, value, rfl, -⟩ := hentry.assigns
  obtain ⟨p', rfl⟩ := hholds
  refine ⟨value, ?_⟩
  rw [p'.temporary_eq p]
  simp [statements]

/-! ## Reading -/

/-- An emission that can read at the end of a block. -/
structure Prepared (ctx : Context) (root : Nat) (base : List String) (b : Nat) (e : Emission) :
    Prop where
  ready : Ready ctx root base e.blocks e.path.latest b
  fresh : e.fresh = []

section Reading

variable {ctx : Context} {root b : Nat} {base : List String} {e r : Emission} {n : Node}
  {param : String} {log : Log}

theorem Reads.keeps (h : Reads ctx b n param e log r) : e.blocks.Keeps r.blocks := by
  rw [h.blocks]
  exact keeps_lines e.blocks b log.statements

/-- Reading prepares for more reading. -/
theorem Prepared.reads (h : Prepared ctx root base b e) (hreads : Reads ctx b n param e log r) :
    Prepared ctx root base b r := by
  have hkept := h.ready.keeps hreads.keeps
  refine ⟨⟨hkept.within, hkept.under, ?_⟩, hreads.fresh⟩
  intro x t hx hholds hreader
  -- on the path before, or put there by the read, which has assigned it
  rcases (hreads.path x).1 hx with hold | ⟨hlog, -⟩
  · exact hkept.held hold hholds hreader
  · obtain ⟨value, hmem⟩ := hreads.valid.assigned hlog hholds
    rw [hreads.blocks]
    exact Or.inr (assignedWithin_of_mem_lines h.ready.within h.ready.under hmem)

/-- No variable reader is current. -/
theorem Prepared.not_reader (h : Prepared ctx root base b e) {x : String}
    (hcur : e.isCurrent ctx x = true) : ctx.isReader x = false := by
  cases hreader : ctx.isReader x with
  | true =>
      rw [isCurrent_iff_of_reader hreader, h.fresh] at hcur
      exact absurd hcur List.not_mem_nil
  | false => rfl

/-- The temporary of a node that is current is assigned. -/
theorem Prepared.assigned_of_isCurrent (h : Prepared ctx root base b e) {x t : String}
    (hcur : e.isCurrent ctx x = true) (hholds : ctx.Holds t x) :
    x ∈ base ∨ e.blocks.AssignedWithin root t b (e.blocks.body b).length := by
  have hreader := h.not_reader hcur
  rw [isCurrent_iff_of_not_reader hreader] at hcur
  exact h.ready.held hcur hholds hreader

/-- A temporary that is read from a pure node is assigned, one that holds the
    value of a variable reader in any case. -/
theorem Prepared.assigned (h : Prepared ctx root base b e)
    (hreads : Reads ctx b n param e log r) {t : String} {output : Endpoint} {kind : ParamKind}
    (hsource : ctx.source n param = .temporary t output kind) (hholds : ctx.Holds t output.node) :
    (output.node ∈ base ∧ ctx.isReader output.node = false)
      ∨ r.blocks.AssignedWithin root t b (r.blocks.body b).length := by
  obtain ⟨p, rfl⟩ := hholds
  rcases hreads.producer hsource p.isPure with hcur | hlog
  · rcases h.assigned_of_isCurrent hcur ⟨p, rfl⟩ with hbase | hassigned
    · exact Or.inl ⟨hbase, h.not_reader hcur⟩
    · exact Or.inr ((hassigned.keeps hreads.keeps).mono (hreads.keeps.length_le b))
  · obtain ⟨value, hmem⟩ := hreads.valid.assigned hlog ⟨p, rfl⟩
    rw [hreads.blocks]
    exact Or.inr (assignedWithin_of_mem_lines h.ready.within h.ready.under hmem)

/-- Writing lines keeps an emission prepared. -/
theorem Prepared.emit (h : Prepared ctx root base b e) (s : Statement) :
    Prepared ctx root base b (e.emit b s) :=
  ⟨h.ready.keeps (keeps_line e.blocks b s), h.fresh⟩

/-- A comment leaves a place ready to read at. -/
theorem Prepared.announce (h : Prepared ctx root base b e) (n : Node) (d : Definition)
    (kind : NodeKind) : Prepared ctx root base b (e.announce ctx n d kind b) := by
  rw [Emission.announce]
  split
  · exact h.emit _
  · exact h

end Reading

/-- Inputs that are read one after the other. -/
theorem readInputs_append (ctx : Context) (n : Node) (before after : List String) (b : Nat)
    (e : Emission) :
    (readInputs ctx n (before ++ after) b e).2
      = (readInputs ctx n after b (readInputs ctx n before b e).2).2 := by
  induction before generalizing e with
  | nil => rfl
  | cons param rest ih => exact ih _

/-- What one read keeps, reading inputs one after the other keeps. -/
theorem readInputs_induction {ctx : Context} {n : Node} {b : Nat} {P : Emission → Prop}
    (params : List String) (step : ∀ param ∈ params, ∀ e, P e → P (readInput ctx n param b e).2)
    {e : Emission} (h : P e) : P (readInputs ctx n params b e).2 := by
  induction params generalizing e with
  | nil => exact h
  | cons param rest ih =>
      exact ih (fun param' hparam' => step param' (List.mem_cons_of_mem _ hparam'))
        (step param (List.mem_cons_self ..) e h)

end Blueprints
