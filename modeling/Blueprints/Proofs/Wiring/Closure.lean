import Mathlib.Data.Finset.Card
import Mathlib.Order.Bounds.Basic
import Blueprints.Proofs.Wiring.Scans

/-! # The variable readers, found in any order

    The variable readers are the least set of ids that holds the nodes that
    read a variable and, with each member, the pure nodes that connections
    lead to from it (`isLeast_readsVariable`).

    A search finds them one by one.  It takes a pending reader and follows the
    connections that leave it; the pure nodes that it meets become readers,
    and pending, unless they are readers already.  Which of the pending
    readers is taken is left open.  In whatever order, a search has taken as
    many steps as there are readers when it ends, and it has found the least
    set (`Sound.finishes`), which is what closing by layers gives. -/

namespace Blueprints

open Relation (ReflTransGen)

/-! ## The least closed set -/

/-- A connection with both ends leads from one node to another. -/
def Blueprint.Connects (b : Blueprint) (y x : String) : Prop :=
  ∃ c ∈ b.connections, b.hasEnds c = true ∧ c.source.node = y ∧ c.target.node = x

/-- A set of ids that holds the nodes that read a variable and, with each
    member, the pure nodes that connections lead to from it.  An id stands for
    the first node that has it. -/
structure Blueprint.ReaderClosed (b : Blueprint) (catalog : Catalog) (ids : Set String) :
    Prop where
  getter : ∀ n ∈ b.nodes, catalog.kind? n = some (.pure .getVariable) → n.id ∈ ids
  fed : ∀ y ∈ ids, ∀ (x : String) (n : Node), b.Connects y x → b.node? x = some n →
    catalog.isPure n = true → x ∈ ids

namespace Readers

/-- A connection leads from one node to another, which is pure. -/
def Leads (index : Index) (catalog : Catalog) (y x : String) : Prop :=
  index.Connects y x ∧ index.isPure catalog x = true

end Readers

section LeastSet

variable {b : Blueprint} {catalog : Catalog}

theorem connects_build_iff {y x : String} : (Index.build b).Connects y x ↔ b.Connects y x := by
  rw [Index.Connects, Blueprint.Connects, Index.leaving_build, Index.knows_build_eq]
  simp only [List.mem_filter, Bool.and_eq_true, beq_iff_eq, and_assoc]

/-- A node is pure in the index if the first one with its id is. -/
theorem isPure_build_iff {x : String} :
    (Index.build b).isPure catalog x = true
      ↔ ∃ n, b.node? x = some n ∧ catalog.isPure n = true := by
  rw [Index.isPure, Index.node?_build]
  cases b.node? x with
  | none => simp
  | some n => simp

/-- What a search follows, told by the blueprint. -/
theorem leads_build_iff {y x : String} :
    Readers.Leads (Index.build b) catalog y x
      ↔ b.Connects y x ∧ ∃ n, b.node? x = some n ∧ catalog.isPure n = true := by
  rw [Readers.Leads, connects_build_iff, isPure_build_iff]

theorem ReadsVariable.of_leads {y x : String} (hy : ReadsVariable b catalog y)
    (h : Readers.Leads (Index.build b) catalog y x) : ReadsVariable b catalog x := by
  obtain ⟨⟨c, hc, rfl⟩, hpure⟩ := h
  exact .through hy hc hpure

/-- **The nodes that read a variable**, at once or through others, are the
    least closed set. -/
theorem isLeast_readsVariable (b : Blueprint) (catalog : Catalog) :
    IsLeast {ids | b.ReaderClosed catalog ids} {id | ReadsVariable b catalog id} := by
  constructor
  · constructor
    · intro n hn hkind
      exact .itself hn hkind
    · intro y hy x n hconnects hnode hpure
      exact ReadsVariable.of_leads hy (leads_build_iff.2 ⟨hconnects, n, hnode, hpure⟩)
  · intro ids hclosed id hid
    induction hid with
    | itself hn hkind => exact hclosed.getter _ hn hkind
    | through hx hc hpure ih =>
        have hleads : Readers.Leads (Index.build b) catalog _ _ := ⟨⟨_, hc, rfl⟩, hpure⟩
        obtain ⟨hconnects, n, hnode, hpure'⟩ := leads_build_iff.1 hleads
        exact hclosed.fed _ ih _ n hconnects hnode hpure'

/-- **Closing by layers finds the readers.** -/
theorem mem_variableReaders {id : String} :
    id ∈ variableReaders b catalog (Index.build b) ↔ ReadsVariable b catalog id := by
  rw [← isReader_iff b catalog {} id, Context.isReader, List.contains_iff_mem]
  rfl

end LeastSet

/-! ## Searches -/

namespace Readers

/-- A search on its way: the readers that are found, and those of them that
    are yet to be taken. -/
structure Search where
  readers : Finset String
  pending : List String

namespace Search

section Steps

variable (index : Index) (catalog : Catalog)

/-- Meets the node with an id: it becomes a reader, and pending, if it is pure
    and no reader yet. -/
def meet (s : Search) (id : String) : Search :=
  if index.isPure catalog id = true ∧ id ∉ s.readers then
    { readers := insert id s.readers, pending := s.pending ++ [id] }
  else s

/-- Follows connections, one after the other. -/
def follow (s : Search) (connections : List Connection) : Search :=
  connections.foldl (fun s c => s.meet index catalog c.target.node) s

/-- One step takes any pending reader and follows the connections that leave
    it. -/
inductive Step : Search → Search → Prop where
  | take (readers : Finset String) (before : List String) (id : String) (after : List String) :
      Step ⟨readers, before ++ id :: after⟩
        (follow index catalog ⟨readers, before ++ after⟩ (index.leaving id))

/-- A number of steps, one after the other. -/
inductive Run : Nat → Search → Search → Prop where
  | none (s : Search) : Run 0 s s
  | step {k : Nat} {s t u : Search} (first : Step index catalog s t) (rest : Run k t u) :
      Run (k + 1) s u

end Steps

/-- The search that starts with some readers, in the order in which they are
    listed. -/
def start (order : List String) : Search := ⟨order.toFinset, order⟩

/-- What connections add: each pure node that they lead to and that was no
    reader, once. -/
theorem exists_follow (index : Index) (catalog : Catalog) (s : Search)
    (connections : List Connection) :
    ∃ new : List String, follow index catalog s connections
        = ⟨s.readers ∪ new.toFinset, s.pending ++ new⟩
      ∧ new.Nodup
      ∧ ∀ x, x ∈ new ↔ x ∉ s.readers ∧ (∃ c ∈ connections, c.target.node = x)
        ∧ index.isPure catalog x = true := by
  induction connections generalizing s with
  | nil => exact ⟨[], by simp [follow], List.nodup_nil, by simp⟩
  | cons c rest ih =>
      obtain ⟨new, hfollow, hnodup, hnew⟩ := ih (s.meet index catalog c.target.node)
      rw [follow, List.foldl_cons, ← follow, hfollow]
      by_cases hmeet : index.isPure catalog c.target.node = true ∧ c.target.node ∉ s.readers
      · simp only [meet, if_pos hmeet] at hnew ⊢
        refine ⟨c.target.node :: new, ?_, ?_, ?_⟩
        · simp [Finset.insert_union, Finset.union_insert]
        · refine List.nodup_cons.2 ⟨?_, hnodup⟩
          intro hmem
          exact ((hnew _).1 hmem).1 (Finset.mem_insert_self ..)
        · intro x
          rw [List.mem_cons, hnew]
          by_cases hx : x = c.target.node
          · subst hx
            simp [hmeet]
          · simp [hx, Ne.symm hx]
      · simp only [meet, if_neg hmeet] at hnew ⊢
        refine ⟨new, rfl, hnodup, ?_⟩
        intro x
        rw [hnew]
        constructor
        · rintro ⟨hx, ⟨c', hc', htarget⟩, hpure⟩
          exact ⟨hx, ⟨c', List.mem_cons_of_mem _ hc', htarget⟩, hpure⟩
        · rintro ⟨hx, ⟨c', hc', rfl⟩, hpure⟩
          rcases List.mem_cons.1 hc' with rfl | hrest
          · exact absurd ⟨hpure, hx⟩ hmeet
          · exact ⟨hx, ⟨c', hrest, rfl⟩, hpure⟩

variable {index : Index} {catalog : Catalog}

/-- **What a step does.**  One reader is no longer pending; the nodes that it
    leads to and that were no readers are both, each of them once. -/
theorem Step.exists_new {s t : Search} (h : Step index catalog s t) :
    ∃ (before : List String) (id : String) (after new : List String),
      s.pending = before ++ id :: after
      ∧ t.readers = s.readers ∪ new.toFinset
      ∧ t.pending = before ++ after ++ new
      ∧ new.Nodup
      ∧ ∀ x, x ∈ new ↔ x ∉ s.readers ∧ Leads index catalog id x := by
  cases h with
  | take readers before id after =>
      obtain ⟨new, hfollow, hnodup, hnew⟩ := exists_follow index catalog ⟨readers, before ++ after⟩
        (index.leaving id)
      rw [hfollow]
      exact ⟨before, id, after, new, rfl, rfl, rfl, hnodup, hnew⟩

/-- Each step takes one reader, and what it finds is both a reader and
    pending. -/
theorem Step.count {s t : Search} (h : Step index catalog s t) :
    t.pending.length + 1 + s.readers.card = s.pending.length + t.readers.card := by
  obtain ⟨before, id, after, new, hpending, hreaders, hpending', hnodup, hnew⟩ := h.exists_new
  have hdisjoint : Disjoint s.readers new.toFinset := by
    rw [Finset.disjoint_right]
    intro x hx
    exact ((hnew x).1 (List.mem_toFinset.1 hx)).1
  rw [hpending, hreaders, hpending', Finset.card_union_of_disjoint hdisjoint,
    List.toFinset_card_of_nodup hnodup]
  simp only [List.length_append, List.length_cons]
  omega

/-- Every step takes one reader, and every new reader becomes pending, so the steps
    are counted by the readers. -/
theorem Run.count {k : Nat} {s t : Search} (h : Run index catalog k s t) :
    k + t.pending.length + s.readers.card = s.pending.length + t.readers.card := by
  induction h with
  | none s => omega
  | step first rest ih =>
      have hfirst := first.count
      omega

/-- While readers are pending, the search goes on. -/
theorem exists_step (index : Index) (catalog : Catalog) {s : Search} (h : s.pending ≠ []) :
    ∃ t, Step index catalog s t := by
  obtain ⟨readers, pending⟩ := s
  obtain ⟨id, after, rfl⟩ := List.exists_cons_of_ne_nil h
  exact ⟨_, Step.take readers [] id after⟩

/-! ### What a search keeps -/

/-- A search of a blueprint: it has found only nodes that read a variable, all
    that read one at once among them; what is pending is found, and what is
    found and no longer pending was followed. -/
structure Sound (b : Blueprint) (catalog : Catalog) (s : Search) : Prop where
  found : ∀ x ∈ s.readers, ReadsVariable b catalog x
  getters : ∀ n ∈ b.nodes, catalog.kind? n = some (.pure .getVariable) → n.id ∈ s.readers
  listed : ∀ x ∈ s.pending, x ∈ s.readers
  followed : ∀ y ∈ s.readers, y ∉ s.pending → ∀ x, Leads (.build b) catalog y x → x ∈ s.readers

section OfBlueprint

variable {b : Blueprint} {s t : Search} {k : Nat}

/-- **One step keeps a search sound.** -/
theorem Step.sound (h : Step (.build b) catalog s t) (hs : s.Sound b catalog) :
    t.Sound b catalog := by
  obtain ⟨before, id, after, new, hpending, hreaders, hpending', -, hnew⟩ := h.exists_new
  have hid : id ∈ s.readers := hs.listed id (by simp [hpending])
  have hmem : ∀ x, x ∈ t.readers ↔ x ∈ s.readers ∨ x ∈ new := by
    intro x
    rw [hreaders, Finset.mem_union, List.mem_toFinset]
  constructor
  · intro x hx
    rcases (hmem x).1 hx with hold | hadded
    · exact hs.found x hold
    · exact (hs.found id hid).of_leads ((hnew x).1 hadded).2
  · intro n hn hkind
    exact (hmem _).2 (Or.inl (hs.getters n hn hkind))
  · intro x hx
    rw [hpending', List.mem_append] at hx
    refine (hmem x).2 (hx.imp_left fun hold => hs.listed x ?_)
    rw [hpending, List.mem_append, List.mem_cons]
    exact (List.mem_append.1 hold).imp_right Or.inr
  · intro y hy hdone x hleads
    rw [hpending'] at hdone
    simp only [List.mem_append, not_or] at hdone
    obtain ⟨⟨hbefore, hafter⟩, hnotnew⟩ := hdone
    have hold : y ∈ s.readers := ((hmem y).1 hy).resolve_right hnotnew
    rw [hmem]
    by_cases hx : x ∈ s.readers
    · exact Or.inl hx
    · -- only the node that was taken can lead to a new one
      by_cases htaken : y = id
      · subst htaken
        exact Or.inr ((hnew x).2 ⟨hx, hleads⟩)
      · have hrest : y ∉ s.pending := by
          simp [hpending, hbefore, hafter, htaken]
        exact absurd (hs.followed y hold hrest x hleads) hx

/-- So do steps one after the other. -/
theorem Run.sound (h : Run (.build b) catalog k s t) (hs : s.Sound b catalog) :
    t.Sound b catalog := by
  induction h with
  | none s => exact hs
  | step first rest ih => exact ih (first.sound hs)

/-- A search starts with the nodes that read a variable. -/
theorem sound_start {order : List String}
    (horder : ∀ id, id ∈ order ↔
      ∃ n ∈ b.nodes, catalog.kind? n = some (.pure .getVariable) ∧ n.id = id) :
    (start order).Sound b catalog := by
  constructor
  · intro x hx
    obtain ⟨n, hn, hkind, rfl⟩ := (horder x).1 (List.mem_toFinset.1 hx)
    exact .itself hn hkind
  · intro n hn hkind
    exact List.mem_toFinset.2 ((horder n.id).2 ⟨n, hn, hkind, rfl⟩)
  · intro x hx
    exact List.mem_toFinset.2 hx
  · -- all that is found is pending
    intro y hy hdone
    exact absurd (List.mem_toFinset.1 hy) hdone

/-! ### How a search ends -/

theorem Sound.subset (hs : s.Sound b catalog) :
    s.readers ⊆ (variableReaders b catalog (.build b)).toFinset := by
  intro x hx
  exact List.mem_toFinset.2 (mem_variableReaders.2 (hs.found x hx))

/-- When nothing is pending, all readers are found. -/
theorem Sound.readers_eq (hs : s.Sound b catalog) (hdone : s.pending = []) :
    s.readers = (variableReaders b catalog (.build b)).toFinset := by
  refine Finset.Subset.antisymm hs.subset ?_
  intro x hx
  have hreads := mem_variableReaders.1 (List.mem_toFinset.1 hx)
  induction hreads with
  | itself hn hkind => exact hs.getters _ hn hkind
  | through hy hc hpure ih =>
      have hfound := ih (List.mem_toFinset.2 (mem_variableReaders.2 hy))
      exact hs.followed _ hfound (by simp [hdone]) _ ⟨⟨_, hc, rfl⟩, hpure⟩

/-- **A search finishes**: from wherever it is, it goes on for as many steps as
    readers are pending or not yet found. -/
theorem Sound.finishes (hs : s.Sound b catalog) {m : Nat}
    (hm : s.pending.length + (variableReaders b catalog (.build b)).toFinset.card
      = s.readers.card + m) :
    Run (.build b) catalog m s ⟨(variableReaders b catalog (.build b)).toFinset, []⟩ := by
  induction m generalizing s with
  | zero =>
      have hcard := Finset.card_le_card hs.subset
      have hdone : s.pending = [] := List.eq_nil_of_length_eq_zero (by omega)
      rw [← hs.readers_eq hdone, ← hdone]
      exact .none s
  | succ m ih =>
      have hpending : s.pending ≠ [] := by
        intro hdone
        rw [hs.readers_eq hdone, hdone, List.length_nil] at hm
        omega
      obtain ⟨t, hstep⟩ := exists_step (.build b) catalog hpending
      have hcount := hstep.count
      exact .step hstep (ih (hstep.sound hs) (by omega))

end OfBlueprint

end Search

end Readers

/-! ## The readers, in any order -/

/-- **The variable readers are the least closed set, in any order.**  For every
    blueprint and catalog, the readers are the least set that holds the nodes
    that read a variable and, with each member, the pure nodes that a
    connection with both ends leads to from it.

    A search that starts from the nodes that read a variable, in any order, and
    then takes any of the pending readers at each step, takes at most as many
    steps as there are readers; where nothing is pending it has found exactly
    them; and from wherever it is, it goes on to there in the steps that are
    left.

    A pure node that depends on a node that reads a variable is among them if it
    does so along connections: each of the nodes on the way is connected to the
    one that it depends on.  Where no id has a colon, it always is. -/
theorem variableReaders_least_in_any_order (b : Blueprint) (catalog : Catalog) :
    let readers := variableReaders b catalog (Index.build b)
    IsLeast {ids : Set String | b.ReaderClosed catalog ids} {id | id ∈ readers}
    ∧ (∀ order : List String, order.Nodup →
        (∀ id, id ∈ order ↔
          ∃ n ∈ b.nodes, catalog.kind? n = some (.pure .getVariable) ∧ n.id = id) →
        ∀ (k : Nat) (s : Readers.Search), Readers.Search.Run (.build b) catalog k (.start order) s →
          k ≤ readers.toFinset.card
          ∧ (s.pending = [] → s.readers = readers.toFinset)
          ∧ Readers.Search.Run (.build b) catalog (readers.toFinset.card - k) s
            ⟨readers.toFinset, []⟩)
    ∧ ∀ (options : Options) (x g : String) (getter : Node),
        let ctx := Context.of b catalog options
        ctx.index.isPure ctx.catalog x = true →
        ctx.index.node? g = some getter →
        ctx.catalog.kind? getter = some (.pure .getVariable) →
          (ReflTransGen (fun y z => ctx.DependsOn y z ∧ b.Connects z y) x g → x ∈ readers)
          ∧ (ReflTransGen ctx.DependsOn x g → (∀ n ∈ b.nodes, ':' ∉ n.id.toList) →
            x ∈ readers) := by
  intro readers
  refine ⟨?_, ?_, ?_⟩
  · have hreads : {id | id ∈ readers} = {id | ReadsVariable b catalog id} := by
      ext id
      exact mem_variableReaders
    rw [hreads]
    exact isLeast_readsVariable b catalog
  · intro order hnodup horder k s hrun
    have hsound := hrun.sound (Readers.Search.sound_start horder)
    have hcount := hrun.count
    have hstart : (Readers.Search.start order).readers.card
        = (Readers.Search.start order).pending.length := List.toFinset_card_of_nodup hnodup
    have hcard : s.readers.card ≤ readers.toFinset.card := Finset.card_le_card hsound.subset
    refine ⟨by omega, hsound.readers_eq, hsound.finishes ?_⟩
    show s.pending.length + readers.toFinset.card = _
    omega
  · intro options x g getter ctx hpure hgetter hkind
    constructor
    · intro hconnected
      simp only [← connects_build_iff] at hconnected
      exact List.contains_iff_mem.1 (isReader_of_connected hconnected hpure hgetter hkind)
    · intro hreaches hids
      exact List.contains_iff_mem.1 (isReader_of_reaches hids hreaches hpure hgetter hkind)

/-! ### A node that shares the text of its input -/

namespace SharedText

def getX : Node := ⟨"x", "get_variable", "", {}, [("name", .string "x")], []⟩

def getY : Node := ⟨"y", "get_variable", "", {}, [("name", .string "y")], []⟩

def text : Node := ⟨"text", "to_string", "", {}, [], []⟩

def print : Node := ⟨"p", "print", "", {}, [], []⟩

def twin : Node := ⟨"p:q", "to_string", "", {}, [], []⟩

/-- The connection to input `q:value` of node `p` is filed under the text of
    input `value` of node `p:q`. -/
def wire : Connection := ⟨"c1", ⟨"x", "value"⟩, ⟨"p", "q:value"⟩⟩

def blueprint : Blueprint where
  kind := .function
  nodes := [getX, getY, text, print, twin]
  connections := [wire, ⟨"c2", ⟨"y", "value"⟩, ⟨"text", "value"⟩⟩,
    ⟨"c3", ⟨"text", "result"⟩, ⟨"p", "value"⟩⟩]

abbrev context : Context := .of blueprint .builtin {}

/-- The node reads the second variable, and its twin reads the first, by
    evaluation. -/
theorem text_reads_y_and_twin_reads_x :
    context.index.isPure context.catalog "text" = true
      ∧ (context.index.node? "text" = some text ∧ "y" ∈ context.pureDependencies text)
      ∧ (context.index.node? "y" = some getY
        ∧ context.catalog.kind? getY = some (.pure .getVariable))
      ∧ (context.index.node? "p:q" = some twin ∧ "x" ∈ context.pureDependencies twin)
      ∧ (∀ n ∈ blueprint.nodes,
        Catalog.builtin.kind? n = some (.pure .getVariable) ↔ n.id ∈ ["x", "y"])
      ∧ blueprint.node? "p" = some print ∧ Catalog.builtin.isPure print = false := by
  decide +kernel

/-- The getters are the two variables, by evaluation. -/
theorem mem_getters_iff (id : String) : id ∈ ["x", "y"] ↔ ∃ n ∈ blueprint.nodes,
    Catalog.builtin.kind? n = some (.pure .getVariable) ∧ n.id = id := by
  obtain ⟨-, -, -, -, hgetters, -⟩ := text_reads_y_and_twin_reads_x
  constructor
  · intro hid
    have hnode : ∃ n ∈ blueprint.nodes, n.id = id := by
      rcases List.mem_pair.1 hid with rfl | rfl
      · exact ⟨getX, by simp [blueprint], rfl⟩
      · exact ⟨getY, by simp [blueprint], rfl⟩
    obtain ⟨n, hn, rfl⟩ := hnode
    exact ⟨n, hn, (hgetters n hn).2 hid, rfl⟩
  · rintro ⟨n, hn, hkind, rfl⟩
    exact (hgetters n hn).1 hkind

/-- The variables and the text are closed. -/
theorem readerClosed : blueprint.ReaderClosed .builtin {id | id ∈ ["x", "y", "text"]} := by
  obtain ⟨-, -, -, -, -, hprint, himpure⟩ := text_reads_y_and_twin_reads_x
  constructor
  · intro n hn hkind
    exact List.mem_append_left ["text"] ((mem_getters_iff n.id).2 ⟨n, hn, hkind, rfl⟩)
  · rintro u - v n ⟨c, hc, -, -, rfl⟩ hnode hpure
    -- a connection leads to the print or to the text
    have htarget : c.target.node = "p" ∨ c.target.node = "text" := by
      simp only [blueprint, List.mem_cons, List.not_mem_nil, or_false] at hc
      rcases hc with rfl | rfl | rfl
      · exact Or.inl rfl
      · exact Or.inr rfl
      · exact Or.inl rfl
    rcases htarget with hp | htext
    · rw [hp, hprint] at hnode
      obtain rfl := Option.some.inj hnode
      rw [himpure] at hpure
      exact absurd hpure Bool.false_ne_true
    · simp [htext]

theorem connects_text : blueprint.Connects "y" "text" :=
  ⟨⟨"c2", ⟨"y", "value"⟩, ⟨"text", "value"⟩⟩, by simp [blueprint], by decide, rfl, rfl⟩

/-- In both orders, three steps find both variables and the text of the
    second; the twin depends on the first, but the search does not meet it. -/
theorem text_found_and_twin_missed :
    Readers.Search.Run (.build blueprint) .builtin 3 (.start ["x", "y"]) ⟨{"x", "y", "text"}, []⟩
    ∧ Readers.Search.Run (.build blueprint) .builtin 3 (.start ["y", "x"])
      ⟨{"x", "y", "text"}, []⟩
    ∧ "text" ∈ variableReaders blueprint .builtin (.build blueprint)
    ∧ context.DependsOn "p:q" "x"
    ∧ "p:q" ∉ variableReaders blueprint .builtin (.build blueprint) := by
  obtain ⟨hpure, ⟨htext, hdepends⟩, ⟨hy, hkind⟩, ⟨htwin, hmisread⟩, -⟩ := text_reads_y_and_twin_reads_x
  obtain ⟨⟨hclosed, hleast⟩, hsearch, hdependents⟩ :=
    variableReaders_least_in_any_order blueprint .builtin
  have hfound : "text" ∈ variableReaders blueprint .builtin (.build blueprint) :=
    (hdependents {} "text" "y" getY hpure hy hkind).1
      (.single ⟨⟨text, htext, hdepends⟩, connects_text⟩)
  have hreaders : (variableReaders blueprint .builtin (.build blueprint)).toFinset
      = {"x", "y", "text"} := by
    ext id
    rw [List.mem_toFinset]
    constructor
    · intro hid
      simpa using hleast readerClosed hid
    · intro hid
      have hcases : id ∈ ["x", "y"] ∨ id = "text" := by simpa [or_assoc] using hid
      rcases hcases with hgetter | rfl
      · obtain ⟨n, hn, hkind, rfl⟩ := (mem_getters_iff id).1 hgetter
        exact hclosed.getter n hn hkind
      · exact hfound
  have hrun : ∀ order : List String, order.Nodup → order.Perm ["x", "y"] →
      Readers.Search.Run (.build blueprint) .builtin 3 (.start order)
        ⟨{"x", "y", "text"}, []⟩ := by
    intro order hnodup hperm
    have hfinish := (hsearch order hnodup
      (fun id => hperm.mem_iff.trans (mem_getters_iff id)) 0 _ (.none _)).2.2
    rw [hreaders] at hfinish
    exact hfinish
  refine ⟨hrun _ (by simp) (.refl _), hrun _ (by simp) (.swap ..), hfound,
    ⟨twin, htwin, hmisread⟩, fun hmem => ?_⟩
  have hlisted := hleast readerClosed hmem
  simp at hlisted

end SharedText

end Blueprints
