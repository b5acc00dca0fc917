import Blueprints.Proofs.Wiring.NameParts

/-! # How the names of temporaries are given

    Names are given output by output, and an output that has a name is passed
    over.  So the names of a blueprint can be read as a history: each entry is
    the first form of a wanted name that no entry ahead of it has
    (`givenInTurn_allocate`).  From that follow which outputs have a name, and
    how it is spelled, whatever the texts it is made from. -/

namespace Blueprints

open Text

/-! ## Spelling -/

/-- The spelling of temporaries: a small letter with small letters and digits
    behind it, digits, and characters of identifiers, with an underscore between
    each two. -/
def IsTemporaryName (name : String) : Prop :=
  ∃ first stem number last, name.toList = first :: stem ++ '_' :: (number ++ '_' :: last)
    ∧ first.isLower = true ∧ (∀ c ∈ stem, isSlugChar c = true)
    ∧ number ≠ [] ∧ (∀ c ∈ number, c.isDigit = true)
    ∧ last ≠ [] ∧ ∀ c ∈ last, isIdentifierChar c = true

/-- Every node has a number: that of its id, or its place. -/
theorem nodeNumber_ne_nil (n : Node) (position : Nat) : (nodeNumber n position).toList ≠ [] := by
  cases hsuffix : n.numericSuffix? with
  | none =>
      rw [nodeNumber, hsuffix]
      exact repr_ne_nil position
  | some number =>
      rw [nodeNumber, hsuffix]
      exact numericSuffix?_ne_nil hsuffix

/-- A name that is given has the spelling of temporaries. -/
theorem isTemporaryName_unusedName (d : Definition) (n : Node) (position : Nat) (p : Param)
    (taken : List String) : IsTemporaryName (unusedName taken (wantedName d n position p)) := by
  obtain ⟨more, hparts, hlast⟩ := unusedName_parts d n position p taken
  obtain ⟨first, stem, hstem, hfirst, hchars⟩ := nameStem_chars d
  refine ⟨first, stem, (nodeNumber n position).toList, (identifier p.id).toList ++ more, ?_,
    hfirst, hchars, nodeNumber_ne_nil n position, fun c hc => isDigit_of_mem_nodeNumber hc, ?_,
    List.all_eq_true.1 (all_isIdentifierChar_of_isWord hlast)⟩
  · rw [hparts, hstem]
  · intro hnil
    rw [hnil] at hlast
    cases hlast

namespace Temporaries

/-! ## Turns -/

/-- The name that an output got in its turn: it had none, and a data output of a
    node takes the first form of its wanted name that is not among those given
    `earlier`. -/
structure Given (b : Blueprint) (catalog : Catalog) (earlier : Temporaries) (e : Endpoint)
    (name : String) : Prop where
  unnamed : earlier.name? e = none
  first_free : ∃ n position d p k, b.nodes[position]? = some n ∧ Offers catalog n d p
    ∧ e = ⟨n.id, p.id⟩ ∧ 1 ≤ k ∧ k ≤ earlier.length + 1
    ∧ name = numbered (wantedName d n position p) k
    ∧ (∀ e', (e', name) ∉ earlier)
    ∧ ∀ j, 1 ≤ j → j < k → ∃ e', (e', numbered (wantedName d n position p) j) ∈ earlier

/-- Every name was given in its turn. -/
def GivenInTurn (b : Blueprint) (catalog : Catalog) (ts : Temporaries) : Prop :=
  ∀ i e t, ts[i]? = some (e, t) → Given b catalog (ts.take i) e t

variable {b : Blueprint} {catalog : Catalog}

/-- An output without a name is given the first form that is free. -/
theorem given_unusedName {ts : Temporaries} {n : Node} {position : Nat} {d : Definition}
    {p : Param} (hn : b.nodes[position]? = some n) (hoffers : Offers catalog n d p)
    (hnew : ts.name? ⟨n.id, p.id⟩ = none) :
    Given b catalog ts ⟨n.id, p.id⟩
      (unusedName (ts.map Prod.snd) (wantedName d n position p)) := by
  have hgiven : ∀ name, name ∈ ts.map Prod.snd ↔ ∃ e, (e, name) ∈ ts := by simp
  obtain ⟨k, hpos, hle, heq, hfree, hpassed⟩ :=
    unusedName_first (ts.map Prod.snd) (wantedName d n position p)
  rw [List.length_map] at hle
  rw [hgiven] at hfree
  refine ⟨hnew, n, position, d, p, k, hn, hoffers, rfl, hpos, hle, heq, ?_, ?_⟩
  · rw [heq]
    exact not_exists.1 hfree
  · exact fun j hj hlt => (hgiven _).1 (hpassed j hj hlt)

/-- **To name an output keeps all names given in turn.** -/
theorem GivenInTurn.add {ts : Temporaries} (h : GivenInTurn b catalog ts) {n : Node}
    {position : Nat} {d : Definition} {p : Param} (hn : b.nodes[position]? = some n)
    (hoffers : Offers catalog n d p) :
    GivenInTurn b catalog (ts.add ⟨n.id, p.id⟩ (wantedName d n position p)) := by
  rw [Temporaries.add]
  split
  · exact h
  · next hnew =>
    intro i e t hi
    rcases Nat.lt_or_ge i ts.length with hlt | hge
    · rw [List.getElem?_append_left hlt] at hi
      rw [List.take_append_of_le_length (Nat.le_of_lt hlt)]
      exact h i e t hi
    · rw [List.getElem?_append_right hge, List.getElem?_singleton] at hi
      split at hi
      · next hlast =>
        cases hi
        rw [show i = ts.length by omega, List.take_left]
        exact given_unusedName hn hoffers hnew
      · cases hi

/-- **The names of a blueprint were given one after the other**, each the first
    form that was not taken. -/
theorem givenInTurn_allocate (b : Blueprint) (catalog : Catalog) :
    GivenInTurn b catalog (allocate b catalog) := by
  refine foldl_addNode_induction (P := GivenInTurn b catalog) ?_ (by simp [GivenInTurn])
  intro ts d n position p hn hoffers h
  exact h.add (List.mk_mem_zipIdx_iff_getElem?.1 hn) hoffers

/-! ## Entries -/

/-- The name of an entry is the one that is found: the output had none before. -/
theorem name?_of_getElem? {ts : Temporaries} (h : GivenInTurn b catalog ts) {i : Nat}
    {e : Endpoint} {t : String} (hi : ts[i]? = some (e, t)) : ts.name? e = some t := by
  have hunnamed : (ts.take i).lookup e = none := (h i e t hi).unnamed
  obtain ⟨hlt, hget⟩ := List.getElem?_eq_some_iff.1 hi
  have hsplit : ts = ts.take i ++ (e, t) :: ts.drop (i + 1) := by
    rw [← hget, ← List.drop_eq_getElem_cons, List.take_append_drop]
  exact List.lookup_eq_some_iff.2 ⟨_, _, hsplit, List.lookup_eq_none_iff.1 hunnamed⟩

theorem exists_getElem?_of_name? {ts : Temporaries} {e : Endpoint} {t : String}
    (h : ts.name? e = some t) : ∃ i : Nat, ts[i]? = some (e, t) :=
  List.mem_iff_getElem?.1 (mem_of_name? h)

theorem mem_dataOutputs_iff {d : Definition} {p : Param} :
    p ∈ d.dataOutputs ↔ p ∈ d.outputs ∧ p.kind.isExec = false := by
  rw [Definition.dataOutputs, List.mem_filter, Bool.not_eq_true']

/-- **An output has a name** if it is a data output of a node with its id, and only
    then. -/
theorem exists_name?_allocate_iff (b : Blueprint) (catalog : Catalog) (e : Endpoint) :
    (∃ t, (allocate b catalog).name? e = some t)
      ↔ ∃ n ∈ b.nodes, n.id = e.node ∧ ∃ d, catalog.find? n.definitionId = some d
        ∧ ∃ p ∈ d.outputs, p.id = e.param ∧ p.kind.isExec = false := by
  constructor
  · rintro ⟨t, ht⟩
    obtain ⟨i, hi⟩ := exists_getElem?_of_name? ht
    obtain ⟨n, position, d, p, k, hn, hoffers, rfl, -⟩ :=
      (givenInTurn_allocate b catalog i e t hi).first_free
    obtain ⟨hp, hdata⟩ := mem_dataOutputs_iff.1 hoffers.output
    exact ⟨n, List.mem_of_getElem? hn, rfl, d, hoffers.known, p, hp, rfl, hdata⟩
  · rintro ⟨n, hn, hnode, d, hd, p, hp, hparam, hdata⟩
    obtain ⟨t, ht⟩ := exists_name?_allocate b catalog hn hd (mem_dataOutputs_iff.2 ⟨hp, hdata⟩)
    rw [hnode, hparam] at ht
    exact ⟨t, ht⟩

/-- Every name that is found has the spelling of temporaries. -/
theorem isTemporaryName_of_name? {e : Endpoint} {t : String}
    (h : (allocate b catalog).name? e = some t) : IsTemporaryName t := by
  have hall : ∀ x ∈ allocate b catalog, IsTemporaryName x.2 := by
    refine foldl_addNode_induction (P := fun ts => ∀ x ∈ ts, IsTemporaryName x.2) ?_ (by simp)
    intro ts d n position p _ _ hts
    exact forall_mem_add hts (isTemporaryName_unusedName d n position p _)
  exact hall (e, t) (mem_of_name? h)

/-- **The names of a blueprint.**  The data outputs of the nodes have a name, and
    nothing else has.  No two share one, and all are spelled as temporaries are.
    Each entry counts, and its name is the first form that was not taken: the
    search for it ended after at most one form more than there were names. -/
theorem allocate_exactly (b : Blueprint) (catalog : Catalog) :
    (∀ e, (∃ t, (allocate b catalog).name? e = some t)
      ↔ ∃ n ∈ b.nodes, n.id = e.node ∧ ∃ d, catalog.find? n.definitionId = some d
        ∧ ∃ p ∈ d.outputs, p.id = e.param ∧ p.kind.isExec = false)
    ∧ (∀ e e' t, (allocate b catalog).name? e = some t →
      (allocate b catalog).name? e' = some t → e = e')
    ∧ (∀ e t, (allocate b catalog).name? e = some t → IsTemporaryName t)
    ∧ ∀ i e t, (allocate b catalog)[i]? = some (e, t) →
      (allocate b catalog).name? e = some t
        ∧ Given b catalog ((allocate b catalog).take i) e t := by
  refine ⟨exists_name?_allocate_iff b catalog, ?_, ?_, ?_⟩
  · exact fun e e' t h h' => allocate_injective b catalog h h'
  · exact fun e t h => isTemporaryName_of_name? h
  · intro i e t hi
    exact ⟨name?_of_getElem? (givenInTurn_allocate b catalog) hi,
      givenInTurn_allocate b catalog i e t hi⟩

/-! Three definitions share a stem and four nodes share a number, so the wanted
    names meet; the form that one output gets is what another would like.  An id
    that two nodes have names the outputs of both. -/

namespace Meeting

def sum (id name output : String) : Definition :=
  ⟨id, name, "", none, [], [⟨"then", "", .exec, none, none, none, false⟩,
    ⟨output, "", .number, none, none, none, false⟩], none⟩

def sums : Catalog := ⟨[sum "a" "Sum!" "out", sum "b" "su m" "out", sum "c" "SUM" "out_2"]⟩

def crowded : Blueprint :=
  { nodes := [⟨"x_1", "a", "", {}, [], []⟩, ⟨"y_1", "b", "", {}, [], []⟩,
      ⟨"z_1", "c", "", {}, [], []⟩, ⟨"x_1", "c", "", {}, [], []⟩, ⟨"x_1", "a", "", {}, [], []⟩,
      ⟨"plain", "b", "", {}, [], []⟩, ⟨"w_1", "unknown", "", {}, [], []⟩] }

theorem allocate_crowded : allocate crowded sums
    = [(⟨"x_1", "out"⟩, "sum_1_out"), (⟨"y_1", "out"⟩, "sum_1_out_2"),
      (⟨"z_1", "out_2"⟩, "sum_1_out_2_2"), (⟨"x_1", "out_2"⟩, "sum_1_out_2_3"),
      (⟨"plain", "out"⟩, "sum_5_out")] := by
  decide +kernel

/-- An output of the node whose id is used twice has a name, the output that
    carries control has none, and the names that meet are kept apart. -/
theorem meeting_names_kept_apart :
    (∃ t, (allocate crowded sums).name? ⟨"x_1", "out_2"⟩ = some t)
      ∧ (¬∃ t, (allocate crowded sums).name? ⟨"x_1", "then"⟩ = some t)
      ∧ (∀ e, (allocate crowded sums).name? e = some "sum_1_out_2" →
        e = ⟨"y_1", "out"⟩)
      ∧ IsTemporaryName "sum_1_out_2_3"
      ∧ Given crowded sums
        ((allocate crowded sums).take 3) ⟨"x_1", "out_2"⟩ "sum_1_out_2_3" := by
  obtain ⟨hnamed, hinjective, hspelled, hgiven⟩ := allocate_exactly crowded sums
  have hfour := hgiven 3 ⟨"x_1", "out_2"⟩ "sum_1_out_2_3" (by rw [allocate_crowded]; rfl)
  refine ⟨⟨_, hfour.1⟩, ?_, ?_, hspelled _ _ hfour.1, hfour.2⟩
  · rw [hnamed]
    decide
  · intro e he
    exact hinjective _ _ _ he (hgiven 1 _ _ (by rw [allocate_crowded]; rfl)).1

end Meeting

end Temporaries

end Blueprints
