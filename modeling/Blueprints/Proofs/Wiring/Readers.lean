import Blueprints.Proofs.Wiring.Producers

/-! # The variable readers are closed

    A pure node that takes a value from a variable reader is one itself.
    The readers are closed under the connections that leave them
    (`mem_close_of_leaving`); the inputs of a node are looked up by a text
    that joins its id and the input's id with a colon.  The two agree where
    connections lead to a node from what it depends on (`Index.Connects`), and
    they do where no id of a node has a colon in it, since then the text tells
    the node (`Endpoint.node_eq_of_key`). -/

namespace Blueprints

open Relation (ReflTransGen)

/-! ## Closing -/

namespace Readers

variable {index : Index} {catalog : Catalog} {readers pending : List String}

/-- A pure node behind a pending reader is fed by it. -/
theorem mem_fedBy_of_leaving {y : String} (hy : y ∈ pending) {c : Connection}
    (hc : c ∈ index.leaving y) (hpure : index.isPure catalog c.target.node = true)
    (hnew : c.target.node ∉ readers) : c.target.node ∈ fedBy index catalog readers pending := by
  rw [fedBy, List.mem_eraseDups, List.mem_filter]
  refine ⟨List.mem_map.2 ⟨c, List.mem_flatMap.2 ⟨y, hy, hc⟩, rfl⟩, ?_⟩
  simp [hpure, hnew]

/-- Closing loses no reader. -/
theorem mem_close_of_mem {y : String} (hy : y ∈ readers) :
    y ∈ close index catalog readers pending := by
  fun_induction close index catalog readers pending with
  | case1 => exact hy
  | case2 readers pending fed more hfed ih => exact ih (List.mem_append_left _ hy)

/-- Where only the pending readers may lead to nodes that are not readers yet,
    closing leaves none. -/
theorem mem_close_of_leaving
    (h : ∀ y ∈ readers, y ∈ pending ∨ ∀ c ∈ index.leaving y,
      index.isPure catalog c.target.node = true → c.target.node ∈ readers)
    {y : String} (hy : y ∈ close index catalog readers pending) {c : Connection}
    (hc : c ∈ index.leaving y) (hpure : index.isPure catalog c.target.node = true) :
    c.target.node ∈ close index catalog readers pending := by
  fun_induction close index catalog readers pending with
  | case1 readers pending hnone =>
      rcases h y hy with hpending | hclosed
      · by_contra hnew
        have hfed := mem_fedBy_of_leaving hpending hc hpure hnew
        rw [hnone] at hfed
        exact absurd hfed List.not_mem_nil
      · exact hclosed c hc hpure
  | case2 readers pending fed more hfed ih =>
      refine ih (fun y' hy' => ?_) hy
      rcases List.mem_append.1 hy' with hold | hnew
      · refine Or.inr fun c' hc' hpure' => ?_
        by_cases hmem : c'.target.node ∈ readers
        · exact List.mem_append_left _ hmem
        · rcases h y' hold with hpending | hclosed
          · rw [← hfed]
            exact List.mem_append_right _ (mem_fedBy_of_leaving hpending hc' hpure' hmem)
          · exact absurd (hclosed c' hc' hpure') hmem
      · exact Or.inl hnew

/-- Closing adds only what connections lead to. -/
theorem of_mem_close {P : String → Prop}
    (hstep : ∀ y, P y → ∀ c ∈ index.leaving y, index.isPure catalog c.target.node = true →
      P c.target.node)
    (hreaders : ∀ y ∈ readers, P y) (hpending : ∀ y ∈ pending, P y) {y : String}
    (hy : y ∈ close index catalog readers pending) : P y := by
  fun_induction close index catalog readers pending with
  | case1 readers pending hnone => exact hreaders y hy
  | case2 readers pending fed more hfed ih =>
      have hnew : ∀ y' ∈ fed :: more, P y' := by
        intro y' hy'
        rw [← hfed, fedBy, List.mem_eraseDups, List.mem_filter] at hy'
        obtain ⟨htarget, hpure⟩ := hy'
        obtain ⟨c, hc, rfl⟩ := List.mem_map.1 htarget
        obtain ⟨x, hx, hleaves⟩ := List.mem_flatMap.1 hc
        exact hstep x (hpending x hx) c hleaves (Bool.and_eq_true_iff.1 hpure).1
      refine ih ?_ hnew hy
      intro y' hy'
      rcases List.mem_append.1 hy' with hold | hadded
      · exact hreaders y' hold
      · exact hnew y' hadded

end Readers

/-! ## Texts that tell the node -/

/-- The text of an endpoint begins with the id of its node, where that has no
    colon. -/
theorem takeWhile_key {id : String} (hid : ':' ∉ id.toList) (param : String) :
    ((⟨id, param⟩ : Endpoint).key.toList).takeWhile (· != ':') = id.toList := by
  have hall : ∀ ch ∈ id.toList, (ch != ':') = true := by
    intro ch hch
    rw [bne_iff_ne]
    rintro rfl
    exact hid hch
  rw [Endpoint.key, String.toList_append, String.toList_append, List.append_assoc,
    List.takeWhile_append_of_pos hall]
  show id.toList ++ (':' :: param.toList).takeWhile (· != ':') = id.toList
  rw [List.takeWhile_cons_of_neg (by simp), List.append_nil]

/-- Ids without a colon can be told from the text of an endpoint. -/
theorem Endpoint.node_eq_of_key {e e' : Endpoint} (h : e.key = e'.key) (he : ':' ∉ e.node.toList)
    (he' : ':' ∉ e'.node.toList) : e.node = e'.node := by
  have htake := takeWhile_key he e.param
  rw [show (⟨e.node, e.param⟩ : Endpoint).key = e'.key from h, takeWhile_key he' e'.param] at htake
  exact (String.toList_inj.1 htake).symm

/-! ## Readers of a context -/

section OfContext

variable {b : Blueprint} {catalog : Catalog} {options : Options}

/-- A node that reads a variable is a reader. -/
theorem isReader_of_getVariable {id : String} {n : Node}
    (hn : (Context.of b catalog options).index.node? id = some n)
    (hkind : catalog.kind? n = some (.pure .getVariable)) :
    (Context.of b catalog options).isReader id = true := by
  have hdirect : id ∈ (b.nodes.filter fun n =>
      catalog.kind? n == some (.pure .getVariable)).map Node.id := by
    refine List.mem_map.2 ⟨n, List.mem_filter.2 ⟨Index.mem_of_node?_build hn, ?_⟩,
      Index.id_of_node?_build hn⟩
    rw [hkind]
    exact beq_self_eq_true _
  exact List.contains_iff_mem.2 (Readers.mem_close_of_mem hdirect)

/-- A connection that is known leads to a node. -/
theorem exists_of_knows {c : Connection} (h : (Index.build b).knows c = true) :
    ∃ n ∈ b.nodes, n.id = c.target.node := by
  rw [Index.knows, Bool.and_eq_true] at h
  have hsome : ((Index.build b).node? c.target.node).isSome = true := by
    rw [Index.node?, Std.TreeMap.isSome_getElem?_eq_contains]
    exact h.2
  obtain ⟨n, hn⟩ := Option.isSome_iff_exists.1 hsome
  exact ⟨n, Index.mem_of_node?_build hn, Index.id_of_node?_build hn⟩

/-- A connection leads from one node to another. -/
def Index.Connects (index : Index) (y x : String) : Prop :=
  ∃ c ∈ index.leaving y, c.target.node = x

/-- Where no id has a colon, connections lead to a node from what it depends
    on. -/
theorem connects_of_dependsOn (hids : ∀ n ∈ b.nodes, ':' ∉ n.id.toList) {x y : String}
    (h : (Context.of b catalog options).DependsOn x y) : (Index.build b).Connects y x := by
  obtain ⟨n, hn, hmem⟩ := h
  obtain ⟨d, -, -, p, -, -, c, hc, rfl⟩ := mem_pureDependencies.1 hmem
  obtain rfl : n.id = x := Index.id_of_node?_build hn
  have hincoming : c ∈ (Index.build b).incoming ⟨n.id, p.id⟩ := List.mem_of_mem_head? hc
  rw [Index.incoming_build, List.mem_filter, Bool.and_eq_true, beq_iff_eq] at hincoming
  obtain ⟨hconnection, hknown, hkey⟩ := hincoming
  refine ⟨c, ?_, ?_⟩
  · rw [Index.leaving_build, List.mem_filter, Bool.and_eq_true, beq_iff_eq]
    exact ⟨hconnection, hknown, rfl⟩
  · -- the connection is to the node itself
    obtain ⟨m, hm, hid⟩ := exists_of_knows hknown
    exact Endpoint.node_eq_of_key hkey (hid ▸ hids m hm) (hids n (Index.mem_of_node?_build hn))

/-- A pure node that a connection leads to from a reader is a reader. -/
theorem isReader_of_connects {x y : String} (h : (Index.build b).Connects y x)
    (hpure : (Index.build b).isPure catalog x = true)
    (hy : (Context.of b catalog options).isReader y = true) :
    (Context.of b catalog options).isReader x = true := by
  obtain ⟨c, hleaving, rfl⟩ := h
  rw [Context.isReader, List.contains_iff_mem] at hy ⊢
  exact Readers.mem_close_of_leaving (fun y hy => Or.inl hy) hy hleaving hpure

/-- A pure node that depends on a variable along connections is a reader. -/
theorem isReader_of_connected {x g : String} {n : Node}
    (h : ReflTransGen (fun y z => (Context.of b catalog options).DependsOn y z
      ∧ (Index.build b).Connects z y) x g)
    (hpure : (Index.build b).isPure catalog x = true)
    (hn : (Context.of b catalog options).index.node? g = some n)
    (hkind : catalog.kind? n = some (.pure .getVariable)) :
    (Context.of b catalog options).isReader x = true := by
  induction h using ReflTransGen.head_induction_on with
  | refl => exact isReader_of_getVariable hn hkind
  | head hxy _ ih =>
      obtain ⟨⟨m, -, hmem⟩, hconnects⟩ := hxy
      obtain ⟨d, -, hpure', -⟩ := mem_pureDependencies.1 hmem
      exact isReader_of_connects hconnects hpure (ih hpure')

/-- **A pure node that depends on a variable is a reader**, at once or through
    others, where no id has a colon. -/
theorem isReader_of_reaches (hids : ∀ n ∈ b.nodes, ':' ∉ n.id.toList) {x g : String} {n : Node}
    (h : ReflTransGen (Context.of b catalog options).DependsOn x g)
    (hpure : (Index.build b).isPure catalog x = true)
    (hn : (Context.of b catalog options).index.node? g = some n)
    (hkind : catalog.kind? n = some (.pure .getVariable)) :
    (Context.of b catalog options).isReader x = true := by
  refine isReader_of_connected (ReflTransGen.mono ?_ _ _ h) hpure hn hkind
  intro y z hyz
  exact ⟨hyz, connects_of_dependsOn hids hyz⟩

end OfContext

/-! ## What the readers are -/

/-- A node reads a variable, or it is pure and a connection leads to it from
    one that does. -/
inductive ReadsVariable (b : Blueprint) (catalog : Catalog) : String → Prop where
  | itself {n : Node} (hn : n ∈ b.nodes)
      (hkind : catalog.kind? n = some (.pure .getVariable)) : ReadsVariable b catalog n.id
  | through {x : String} {c : Connection} (hx : ReadsVariable b catalog x)
      (hc : c ∈ (Index.build b).leaving x)
      (hpure : (Index.build b).isPure catalog c.target.node = true) :
      ReadsVariable b catalog c.target.node

/-- **The variable readers** are the nodes that read a variable, at once or
    through others. -/
theorem isReader_iff (b : Blueprint) (catalog : Catalog) (options : Options) (id : String) :
    (Context.of b catalog options).isReader id = true ↔ ReadsVariable b catalog id := by
  have hdirect : ∀ y, y ∈ (b.nodes.filter fun n =>
      catalog.kind? n == some (.pure .getVariable)).map Node.id ↔
      ∃ n ∈ b.nodes, catalog.kind? n = some (.pure .getVariable) ∧ n.id = y := by
    intro y
    simp only [List.mem_map, List.mem_filter, beq_iff_eq, and_assoc]
  show (variableReaders b catalog (Index.build b)).contains id = true ↔ _
  rw [List.contains_iff_mem, variableReaders]
  constructor
  · have hitself : ∀ y ∈ (b.nodes.filter fun n =>
        catalog.kind? n == some (.pure .getVariable)).map Node.id, ReadsVariable b catalog y := by
      intro y hy
      obtain ⟨n, hn, hkind, rfl⟩ := (hdirect y).1 hy
      exact .itself hn hkind
    exact Readers.of_mem_close (fun y hy c hc hpure => .through hy hc hpure) hitself hitself
  · intro h
    induction h with
    | itself hn hkind => exact Readers.mem_close_of_mem ((hdirect _).2 ⟨_, hn, hkind, rfl⟩)
    | through hx hc hpure ih =>
        exact Readers.mem_close_of_leaving (fun y hy => Or.inl hy) ih hc hpure

end Blueprints
