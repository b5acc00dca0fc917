import Blueprints.Catalog.Palette
import Blueprints.Graph.Edit
import Blueprints.Proofs.Text.Numbering
import Blueprints.Proofs.Graph.Validity

/-! # Editing sessions

    A session starts from a new blueprint and edits it; an edit that fails
    changes nothing.  What an edit can do is said once (`Edited`), and each
    invariant is kept by it:

    * the connections are *wired*: they lead from an output to an input of
      nodes that exist, and no two of them have the same ends;
    * the ids are *distinct*, as long as there is room for the number of each
      id that is added;
    * the numbers of the ids grow by one at most, so that there is room in
      every session of fewer than `2 ^ 64 - 8` edits. -/

namespace Blueprints

/-! ## Edits -/

/-- An edit of a blueprint. -/
inductive Edit where
  | addNode (definitionId : String) (position : Position)
  | removeNode (id : String)
  | connect (source target : Endpoint)
  | removeConnection (id : String)
  | setInput (node param : String) (value : Json)
  | setVariable (name : String) (value : Json)

/-- The edited blueprint, or why the edit fails. -/
def Edit.apply (catalog : Catalog) (b : Blueprint) : Edit → Except EditError Blueprint
  | .addNode definitionId position => (b.addNode catalog definitionId position).map Prod.snd
  | .removeNode id => (b.removeNode id).map Prod.snd
  | .connect source target => (b.connect catalog source target).map Prod.snd
  | .removeConnection id => (b.removeConnection id).map Prod.snd
  | .setInput node param value => b.setInput node param value
  | .setVariable name value => .ok (b.setVariable name value)

/-- The blueprint with which a session goes on after an edit. -/
def Edit.after (catalog : Catalog) (b : Blueprint) (edit : Edit) : Blueprint :=
  match edit.apply catalog b with
  | .ok edited => edited
  | .error _ => b

/-- The blueprint after a session. -/
def session (catalog : Catalog) (start : Blueprint) (edits : List Edit) : Blueprint :=
  edits.foldl (Edit.after catalog) start

/-- The blueprints with which sessions start. -/
inductive Blueprint.IsNew (catalog : Catalog) : Blueprint → Prop where
  | empty (name : String) (kind : BlueprintKind) : IsNew catalog (.new name kind)
  | scaffold (name : String) (kind : BlueprintKind) : IsNew catalog (.scaffold name kind catalog)

/-! ## What an edit can do -/

/-- A connection leads from an output to an input of nodes that exist, and
    both carry control or both values. -/
def Blueprint.Joins (catalog : Catalog) (b : Blueprint) (c : Connection) : Prop :=
  ∃ source target sourceDefinition targetDefinition output input,
    b.node? c.source.node = some source ∧ b.node? c.target.node = some target
      ∧ catalog.find? source.definitionId = some sourceDefinition
      ∧ catalog.find? target.definitionId = some targetDefinition
      ∧ sourceDefinition.output? c.source.param = some output
      ∧ targetDefinition.input? c.target.param = some input
      ∧ output.kind.isExec = input.kind.isExec

/-- What an edit makes of a blueprint. -/
inductive Edited (catalog : Catalog) (b : Blueprint) : Blueprint → Prop where
  | nodeAdded (node : Node) (minted : node.id = b.nextNodeId) :
      Edited catalog b { b with nodes := b.nodes ++ [node] }
  | nodeRemoved (id : String) :
      Edited catalog b
        { b with
          nodes := b.nodes.eraseP (·.id == id)
          connections := b.connections.filter fun c => !c.touches id }
  | connected (c : Connection) (minted : c.id = b.nextConnectionId) (joins : b.Joins catalog c)
      (unconnected : ∀ c' ∈ b.connections, ¬(c'.source = c.source ∧ c'.target = c.target)) :
      Edited catalog b (b.addConnection c)
  | connectionRemoved (id : String) :
      Edited catalog b { b with connections := b.connections.eraseP (·.id == id) }
  | nodeChanged (id : String) (change : Node → Node) (keepsId : ∀ n, (change n).id = n.id)
      (keepsDefinition : ∀ n, (change n).definitionId = n.definitionId) :
      Edited catalog b { b with nodes := Blueprint.modifyFirst id change b.nodes }
  | variablesSet (values : Fields) : Edited catalog b { b with variableValues := values }

section Steps

variable {catalog : Catalog} {b b' : Blueprint}

/-- A node that is added comes last, under a new id. -/
theorem eq_of_addNode {definitionId : String} {position : Position} {node : Node}
    (h : b.addNode catalog definitionId position = .ok (node, b')) :
    node.id = b.nextNodeId ∧ b' = { b with nodes := b.nodes ++ [node] } := by
  rw [Blueprint.addNode] at h
  split at h
  · exact nomatch h
  · obtain ⟨rfl, rfl⟩ := Prod.mk.inj (Except.ok.inj h)
    exact ⟨rfl, rfl⟩

theorem edited_of_addNode {definitionId : String} {position : Position} {node : Node}
    (h : b.addNode catalog definitionId position = .ok (node, b')) :
    node.id = b.nextNodeId ∧ Edited catalog b b' := by
  obtain ⟨hminted, rfl⟩ := eq_of_addNode h
  exact ⟨hminted, .nodeAdded node hminted⟩

/-- To remove a node is an edit: its connections go with it. -/
theorem edited_of_removeNode {id : String} {node : Node}
    (h : b.removeNode id = .ok (node, b')) : Edited catalog b b' := by
  rw [Blueprint.removeNode] at h
  split at h
  · exact nomatch h
  · obtain ⟨-, rfl⟩ := Prod.mk.inj (Except.ok.inj h)
    exact .nodeRemoved id

theorem exists_of_bind_ok {ε α β : Type} {x : Except ε α} {f : α → Except ε β} {r : β}
    (h : x >>= f = .ok r) : ∃ a, x = .ok a ∧ f a = .ok r := by
  cases x with
  | error e => exact nomatch h
  | ok a => exact ⟨a, rfl, h⟩

/-- The node at an end of a connection is one of the blueprint. -/
theorem node?_of_endNode {id : String} {n : Node} (h : b.endNode id = .ok n) :
    b.node? id = some n := by
  rw [Blueprint.endNode] at h
  split at h
  · next hn => exact hn.trans (congrArg some (Except.ok.inj h))
  · exact nomatch h

/-- Its definition is one of the catalog. -/
theorem find?_of_endDefinition {n : Node} {d : Definition}
    (h : Blueprint.endDefinition catalog n = .ok d) : catalog.find? n.definitionId = some d := by
  rw [Blueprint.endDefinition] at h
  split at h
  · next hd => exact hd.trans (congrArg some (Except.ok.inj h))
  · exact nomatch h

/-- The param at an end is one of that definition, on the side that is asked for. -/
theorem param?_of_endParam {e : Endpoint} {direction : Direction} {d : Definition} {p : Param} :
    Blueprint.endParam e direction d = .ok p →
      (match direction with
        | .input => d.input? e.param
        | .output => d.output? e.param) = some p := by
  intro h
  unfold Blueprint.endParam at h
  dsimp only at h
  split at h
  · next hp => exact hp.trans (congrArg some (Except.ok.inj h))
  · exact nomatch h

/-- **A connection that is made joins nodes that exist**, is not there yet, and
    comes last under a new id. -/
theorem eq_of_connect {source target : Endpoint} {c : Connection}
    (h : b.connect catalog source target = .ok (c, b')) :
    c.id = b.nextConnectionId ∧ b.Joins catalog c
      ∧ (∀ c' ∈ b.connections, ¬(c'.source = c.source ∧ c'.target = c.target))
      ∧ b' = b.addConnection c := by
  rw [Blueprint.connect] at h
  obtain ⟨sourceNode, hsource, h⟩ := exists_of_bind_ok h
  obtain ⟨targetNode, htarget, h⟩ := exists_of_bind_ok h
  obtain ⟨sourceDefinition, hsource', h⟩ := exists_of_bind_ok h
  obtain ⟨targetDefinition, htarget', h⟩ := exists_of_bind_ok h
  obtain ⟨output, houtput, h⟩ := exists_of_bind_ok h
  obtain ⟨input, hinput, h⟩ := exists_of_bind_ok h
  dsimp only at h
  split at h
  · exact nomatch h
  · next hkinds =>
    split at h
    · exact nomatch h
    · next hnew =>
      obtain ⟨rfl, rfl⟩ := Prod.mk.inj (Except.ok.inj h)
      refine ⟨rfl, ?_, ?_, rfl⟩
      · exact ⟨sourceNode, targetNode, sourceDefinition, targetDefinition, output, input,
          node?_of_endNode hsource, node?_of_endNode htarget, find?_of_endDefinition hsource',
          find?_of_endDefinition htarget', param?_of_endParam houtput, param?_of_endParam hinput,
          by simpa using hkinds⟩
      · rintro c' hc' ⟨hs, ht⟩
        exact hnew (List.any_eq_true.2 ⟨c', hc', by simp [hs, ht]⟩)

theorem edited_of_connect {source target : Endpoint} {c : Connection}
    (h : b.connect catalog source target = .ok (c, b')) :
    c.id = b.nextConnectionId ∧ Edited catalog b b' := by
  obtain ⟨hminted, hjoins, hunconnected, rfl⟩ := eq_of_connect h
  exact ⟨hminted, .connected c hminted hjoins hunconnected⟩

/-- To remove a connection is an edit. -/
theorem edited_of_removeConnection {id : String} {c : Connection}
    (h : b.removeConnection id = .ok (c, b')) : Edited catalog b b' := by
  rw [Blueprint.removeConnection] at h
  split at h
  · exact nomatch h
  · obtain ⟨-, rfl⟩ := Prod.mk.inj (Except.ok.inj h)
    exact .connectionRemoved id

/-- To set an input is an edit. -/
theorem edited_of_setInput {node param : String} {value : Json}
    (h : b.setInput node param value = .ok b') : Edited catalog b b' := by
  rw [Blueprint.setInput] at h
  split at h
  · exact nomatch h
  · obtain rfl := Except.ok.inj h
    exact .nodeChanged node _ (fun _ => rfl) fun _ => rfl

theorem exists_of_map_ok {ε α β : Type} {x : Except ε α} {f : α → β} {r : β}
    (h : x.map f = .ok r) : ∃ a, x = .ok a ∧ f a = r := by
  cases x with
  | error e => cases h
  | ok a => exact ⟨a, rfl, Except.ok.inj h⟩

/-- **An edit that succeeds does one of six things.** -/
theorem edited_of_apply {edit : Edit} (h : edit.apply catalog b = .ok b') : Edited catalog b b' := by
  cases edit with
  | addNode definitionId position =>
      obtain ⟨⟨node, _⟩, hadd, rfl⟩ := exists_of_map_ok h
      exact (edited_of_addNode hadd).2
  | removeNode id =>
      obtain ⟨⟨node, _⟩, hremove, rfl⟩ := exists_of_map_ok h
      exact edited_of_removeNode hremove
  | connect source target =>
      obtain ⟨⟨c, _⟩, hconnect, rfl⟩ := exists_of_map_ok h
      exact (edited_of_connect hconnect).2
  | removeConnection id =>
      obtain ⟨⟨c, _⟩, hremove, rfl⟩ := exists_of_map_ok h
      exact edited_of_removeConnection hremove
  | setInput node param value => exact edited_of_setInput h
  | setVariable name value => exact Except.ok.inj h ▸ .variablesSet _

theorem after_of_error {edit : Edit} {error : EditError} (h : edit.apply catalog b = .error error) :
    edit.after catalog b = b := by
  rw [Edit.after, h]

/-- **After an edit a blueprint is as it was, or edited.** -/
theorem after_cases (catalog : Catalog) (b : Blueprint) (edit : Edit) :
    edit.after catalog b = b ∨ Edited catalog b (edit.after catalog b) := by
  cases h : edit.apply catalog b with
  | error error => exact Or.inl (after_of_error h)
  | ok edited =>
      rw [Edit.after, h]
      exact Or.inr (edited_of_apply h)

end Steps

/-! ## Wired connections -/

section Wiring

variable {catalog : Catalog} {b b' : Blueprint}

/-- Every connection joins nodes that exist, and no two have the same ends. -/
structure Blueprint.Wired (catalog : Catalog) (b : Blueprint) : Prop where
  joins : ∀ c ∈ b.connections, b.Joins catalog c
  ends : (b.connections.map fun c => (c.source, c.target)).Nodup

/-- A connection joins the same nodes as long as their definitions are
    found. -/
theorem Blueprint.Joins.imp {c : Connection} (h : b.Joins catalog c)
    (hnodes : ∀ id n, (id = c.source.node ∨ id = c.target.node) → b.node? id = some n →
      ∃ n', b'.node? id = some n' ∧ n'.definitionId = n.definitionId) : b'.Joins catalog c := by
  obtain ⟨source, target, d, d', output, input, hsource, htarget, hd, hd', houtput, hinput,
    hkinds⟩ := h
  obtain ⟨source', hsource', hsame⟩ := hnodes _ source (Or.inl rfl) hsource
  obtain ⟨target', htarget', hsame'⟩ := hnodes _ target (Or.inr rfl) htarget
  exact ⟨source', target', d, d', output, input, hsource', htarget', hsame ▸ hd, hsame' ▸ hd',
    houtput, hinput, hkinds⟩

/-- A node that is changed keeps its id and its definition, so all others find what
    they found. -/
theorem find?_modifyFirst {id : String} {change : Node → Node} (hid : ∀ n, (change n).id = n.id)
    (hdefinition : ∀ n, (change n).definitionId = n.definitionId) {nodes : List Node}
    {wanted : String} {n : Node} (h : nodes.find? (·.id == wanted) = some n) :
    ∃ n', (Blueprint.modifyFirst id change nodes).find? (·.id == wanted) = some n'
      ∧ n'.definitionId = n.definitionId := by
  induction nodes with
  | nil => exact nomatch h
  | cons m rest ih =>
      rw [List.find?_cons] at h
      rw [Blueprint.modifyFirst]
      cases hwanted : m.id == wanted with
      | true =>
          rw [hwanted] at h
          obtain rfl := Option.some.inj h
          split
          · exact ⟨change m, by rw [List.find?_cons, hid, hwanted], hdefinition m⟩
          · exact ⟨m, by rw [List.find?_cons, hwanted], rfl⟩
      | false =>
          rw [hwanted] at h
          split
          · exact ⟨n, by rw [List.find?_cons, hid, hwanted]; exact h, rfl⟩
          · rw [List.find?_cons, hwanted]
            exact ih h

/-- To remove a node hides no other one. -/
theorem find?_eraseP_of_ne {nodes : List Node} {id wanted : String} (hne : wanted ≠ id) :
    (nodes.eraseP (·.id == id)).find? (·.id == wanted) = nodes.find? (·.id == wanted) := by
  induction nodes with
  | nil => rfl
  | cons m rest ih =>
      rw [List.eraseP_cons]
      cases hid : m.id == id with
      | true =>
          have hother : (m.id == wanted) = false := by
            rw [eq_of_beq hid, beq_eq_false_iff_ne]
            exact hne.symm
          rw [cond_true, List.find?_cons, hother]
      | false =>
          rw [cond_false, List.find?_cons, List.find?_cons, ih]

/-- An edit leaves the nodes of a connection that it does not touch. -/
theorem Blueprint.Wired.edited (h : b.Wired catalog) (hedit : Edited catalog b b') :
    b'.Wired catalog := by
  cases hedit with
  | nodeAdded node minted =>
      refine ⟨fun c hc => (h.joins c hc).imp fun id n _ hn => ⟨n, ?_, rfl⟩, h.ends⟩
      rw [Blueprint.node?, List.find?_append, show b.nodes.find? _ = some n from hn]
      rfl
  | nodeRemoved id =>
      refine ⟨fun c hc => ?_, h.ends.sublist (List.filter_sublist.map _)⟩
      obtain ⟨hc, htouches⟩ := List.mem_filter.1 hc
      -- the ends of a connection that is left are other nodes
      have hends : c.source.node ≠ id ∧ c.target.node ≠ id := by
        simpa [Connection.touches] using htouches
      refine (h.joins c hc).imp fun id' n hid' hn => ⟨n, ?_, rfl⟩
      have hne : id' ≠ id := by
        rcases hid' with rfl | rfl
        · exact hends.1
        · exact hends.2
      exact (find?_eraseP_of_ne hne).trans hn
  | connected c minted joins unconnected =>
      refine ⟨fun c' hc' => ?_, ?_⟩
      · have hsame : b.Joins catalog c' := by
          rcases List.mem_append.1 hc' with hold | hnew
          · exact h.joins c' hold
          · exact List.mem_singleton.1 hnew ▸ joins
        exact hsame.imp fun id n _ hn => ⟨n, hn, rfl⟩
      · rw [Blueprint.addConnection, List.map_append]
        refine List.nodup_append.2 ⟨h.ends, List.nodup_singleton _, fun e he e' he' heq => ?_⟩
        obtain ⟨c', hc', rfl⟩ := List.mem_map.1 he
        obtain rfl := List.mem_singleton.1 he'
        exact unconnected c' hc' (Prod.mk.inj heq)
  | connectionRemoved id =>
      have hsublist : (b.connections.eraseP (·.id == id)).Sublist b.connections :=
        List.eraseP_sublist
      exact ⟨fun c hc => (h.joins c (hsublist.subset hc)).imp fun id n _ hn => ⟨n, hn, rfl⟩,
        h.ends.sublist (hsublist.map _)⟩
  | nodeChanged id change keepsId keepsDefinition =>
      exact ⟨fun c hc => (h.joins c hc).imp fun id' n _ hn =>
        find?_modifyFirst keepsId keepsDefinition hn, h.ends⟩
  | variablesSet values =>
      exact ⟨fun c hc => (h.joins c hc).imp fun id n _ hn => ⟨n, hn, rfl⟩, h.ends⟩

end Wiring

/-! ## Distinct ids -/

section Ids

variable {catalog : Catalog} {b b' : Blueprint}

/-- If a node is added on the way to `b'`, no node of `b` has the last number,
    and the same for connections. -/
structure Blueprint.RoomFor (b b' : Blueprint) : Prop where
  nodes : b.nodes.length < b'.nodes.length →
    ∀ id ∈ b.nodes.map Node.id, Text.number? id ≠ some Text.lastNumber
  connections : b.connections.length < b'.connections.length →
    ∀ id ∈ b.connections.map Connection.id, Text.number? id ≠ some Text.lastNumber

theorem trailingDigits_node : Text.trailingDigits "node_".toList = [] := by decide

theorem trailingDigits_conn : Text.trailingDigits "conn_".toList = [] := by decide

/-- **The id of a new node is new.** -/
theorem nextNodeId_not_mem
    (h : ∀ id ∈ b.nodes.map Node.id, Text.number? id ≠ some Text.lastNumber) :
    b.nextNodeId ∉ b.nodes.map Node.id :=
  Text.append_nextSequence_not_mem trailingDigits_node h

/-- **The id of a new connection is new.** -/
theorem nextConnectionId_not_mem
    (h : ∀ id ∈ b.connections.map Connection.id, Text.number? id ≠ some Text.lastNumber) :
    b.nextConnectionId ∉ b.connections.map Connection.id :=
  Text.append_nextSequence_not_mem trailingDigits_conn h

/-- To change nodes changes no id. -/
theorem map_id_modifyFirst {id : String} {change : Node → Node} (hid : ∀ n, (change n).id = n.id)
    (nodes : List Node) :
    (Blueprint.modifyFirst id change nodes).map Node.id = nodes.map Node.id := by
  induction nodes with
  | nil => rfl
  | cons n rest ih =>
      rw [Blueprint.modifyFirst]
      split
      · rw [List.map_cons, List.map_cons, hid]
      · rw [List.map_cons, List.map_cons, ih]

theorem nodup_append_new {ids : List String} {id : String} (h : ids.Nodup) (hnew : id ∉ ids) :
    (ids ++ [id]).Nodup := by
  refine List.nodup_append.2 ⟨h, List.nodup_singleton _, fun id' hid' new hmem heq => ?_⟩
  rw [List.mem_singleton.1 hmem] at heq
  exact hnew (heq ▸ hid')

theorem length_lt_append_new {α : Type} (as : List α) (a : α) : as.length < (as ++ [a]).length := by
  rw [List.length_append]
  exact Nat.lt_succ_self _

/-- **An edit keeps ids distinct**, if there is room for the number of a new one. -/
theorem Blueprint.Distinct.edited (h : b.Distinct) (room : b.RoomFor b')
    (hedit : Edited catalog b b') : b'.Distinct := by
  cases hedit with
  | nodeAdded node minted =>
      have hroom := room.nodes (length_lt_append_new b.nodes node)
      refine ⟨?_, h.connections⟩
      rw [List.map_append]
      exact nodup_append_new h.nodes (minted ▸ nextNodeId_not_mem hroom)
  | nodeRemoved id =>
      exact ⟨h.nodes.sublist (List.eraseP_sublist.map _),
        h.connections.sublist (List.filter_sublist.map _)⟩
  | connected c minted joins unconnected =>
      have hroom := room.connections (length_lt_append_new b.connections c)
      refine ⟨h.nodes, ?_⟩
      rw [Blueprint.addConnection, List.map_append]
      exact nodup_append_new h.connections (minted ▸ nextConnectionId_not_mem hroom)
  | connectionRemoved id => exact ⟨h.nodes, h.connections.sublist (List.eraseP_sublist.map _)⟩
  | nodeChanged id change keepsId keepsDefinition =>
      exact ⟨(map_id_modifyFirst keepsId b.nodes).symm ▸ h.nodes, h.connections⟩
  | variablesSet values => exact ⟨h.nodes, h.connections⟩

/-! ## Room for another number -/

/-- The numbers of the ids are at most `k`. -/
structure Blueprint.NumberedTo (k : Nat) (b : Blueprint) : Prop where
  nodes : ∀ id ∈ b.nodes.map Node.id, ∀ n, Text.number? id = some n → n ≤ k
  connections : ∀ id ∈ b.connections.map Connection.id, ∀ n, Text.number? id = some n → n ≤ k

/-- Where no id has the last number, there is room. -/
theorem Blueprint.NumberedTo.roomFor {k : Nat} (h : b.NumberedTo k) (hk : k < Text.lastNumber)
    (b' : Blueprint) : b.RoomFor b' :=
  ⟨fun _ id hid hlast => absurd (h.nodes id hid _ hlast) (Nat.not_le.2 hk),
    fun _ id hid hlast => absurd (h.connections id hid _ hlast) (Nat.not_le.2 hk)⟩

theorem Blueprint.NumberedTo.mono {k k' : Nat} (h : b.NumberedTo k) (hle : k ≤ k') :
    b.NumberedTo k' :=
  ⟨fun id hid n hn => Nat.le_trans (h.nodes id hid n hn) hle,
    fun id hid n hn => Nat.le_trans (h.connections id hid n hn) hle⟩

/-- Behind a bound on the numbers, the next id raises it by one at most. -/
theorem number?_next_le {stem : String} (hstem : Text.trailingDigits stem.toList = [])
    {ids : List String} {k : Nat} (h : ∀ id ∈ ids, ∀ n, Text.number? id = some n → n ≤ k) :
    ∀ id ∈ ids ++ [stem ++ toString (Text.nextSequence ids)], ∀ n,
      Text.number? id = some n → n ≤ k + 1 := by
  intro id hid n hn
  rcases List.mem_append.1 hid with hold | hnew
  · exact Nat.le_trans (h id hold n hn) (Nat.le_succ k)
  · rw [List.mem_singleton.1 hnew, Text.number?_append_toString hstem] at hn
    split at hn
    · exact Option.some.inj hn ▸ Text.nextSequence_le h
    · exact nomatch hn

/-- **An edit raises the numbers of ids by one at most.** -/
theorem Blueprint.NumberedTo.edited {k : Nat} (h : b.NumberedTo k)
    (hedit : Edited catalog b b') : b'.NumberedTo (k + 1) := by
  have hmore := h.mono (Nat.le_succ k)
  cases hedit with
  | nodeAdded node minted =>
      refine ⟨?_, hmore.connections⟩
      rw [List.map_append, List.map_singleton, minted]
      exact number?_next_le trailingDigits_node h.nodes
  | nodeRemoved id =>
      exact ⟨fun id hid => hmore.nodes id ((List.eraseP_sublist.map _).subset hid),
        fun id hid => hmore.connections id ((List.filter_sublist.map _).subset hid)⟩
  | connected c minted joins unconnected =>
      refine ⟨hmore.nodes, ?_⟩
      rw [Blueprint.addConnection, List.map_append, List.map_singleton, minted]
      exact number?_next_le trailingDigits_conn h.connections
  | connectionRemoved id =>
      exact ⟨hmore.nodes,
        fun id hid => hmore.connections id ((List.eraseP_sublist.map _).subset hid)⟩
  | nodeChanged id change keepsId keepsDefinition =>
      exact ⟨(map_id_modifyFirst keepsId b.nodes).symm ▸ hmore.nodes, hmore.connections⟩
  | variablesSet values => exact ⟨hmore.nodes, hmore.connections⟩

end Ids

/-! ## Sessions -/

section Runs

variable {catalog : Catalog}

/-- What a new blueprint has and an edit keeps, with the number of edits to
    count by, a session keeps. -/
theorem session_induction {P : Nat → Blueprint → Prop} {start : Blueprint} {k : Nat}
    (hstart : P k start)
    (hstep : ∀ k b edit, P k b → P (k + 1) (Edit.after catalog b edit)) (edits : List Edit) :
    P (k + edits.length) (session catalog start edits) := by
  induction edits generalizing start k with
  | nil => exact hstart
  | cons edit rest ih =>
      have hrest := ih (hstep k start edit hstart)
      rwa [Nat.add_assoc, Nat.add_comm 1] at hrest

/-- The same for the entry nodes of a scaffold. -/
theorem scaffold_induction {P : Nat → Blueprint → Prop} {name : String} {kind : BlueprintKind}
    (hnew : P 0 (.new name kind))
    (hstep : ∀ k b b', P k b → Edited catalog b b' → P (k + 1) b') :
    ∃ k ≤ 7, P k (.scaffold name kind catalog) := by
  have hfold : ∀ (entries : List (String × Position)) (k : Nat) (b : Blueprint), P k b →
      P (k + entries.length) (entries.foldl
        (fun b entry => Blueprint.placeEntry catalog b entry.1 entry.2) b) := by
    intro entries
    induction entries with
    | nil => exact fun k b h => h
    | cons entry rest ih =>
        intro k b h
        have hentry : Edited catalog b (Blueprint.placeEntry catalog b entry.1 entry.2) :=
          .nodeAdded _ rfl
        have hrest := ih (k + 1) _ (hstep k b _ h hentry)
        rwa [Nat.add_assoc, Nat.add_comm 1] at hrest
  refine ⟨0 + (Blueprint.entryPositions kind).length, ?_, hfold _ 0 _ hnew⟩
  cases kind with
  | function => decide
  | component => decide

/-- A new blueprint is wired: it has no connections, or those of its scaffold. -/
theorem Blueprint.IsNew.wired {b : Blueprint} (h : b.IsNew catalog) : b.Wired catalog := by
  have hnew : ∀ name kind, (Blueprint.new name kind).Wired catalog := fun name kind =>
    ⟨fun _ hc => absurd hc List.not_mem_nil, List.nodup_nil⟩
  cases h with
  | empty name kind => exact hnew name kind
  | scaffold name kind =>
      obtain ⟨-, -, hwired⟩ := scaffold_induction (P := fun _ b => b.Wired catalog)
        (hnew name kind) fun _ _ _ h hedit => h.edited hedit
      exact hwired

/-- A new blueprint has a few ids, all of them distinct. -/
theorem Blueprint.IsNew.numbered {b : Blueprint} (h : b.IsNew catalog) :
    b.NumberedTo 7 ∧ b.Distinct := by
  have hnumbers : ∀ name kind, (Blueprint.new name kind).NumberedTo 0 := fun name kind =>
    ⟨fun _ hid => absurd hid List.not_mem_nil, fun _ hid => absurd hid List.not_mem_nil⟩
  have hdistinct : ∀ name kind, (Blueprint.new name kind).Distinct := fun name kind =>
    ⟨List.nodup_nil, List.nodup_nil⟩
  cases h with
  | empty name kind => exact ⟨(hnumbers name kind).mono (Nat.zero_le 7), hdistinct name kind⟩
  | scaffold name kind =>
      -- the bound gives room for the next entry node
      obtain ⟨k, hk, hnumbered, hdistinct⟩ := scaffold_induction
        (P := fun k b => b.NumberedTo k ∧ (k ≤ 7 → b.Distinct))
        ⟨hnumbers name kind, fun _ => hdistinct name kind⟩ fun k b b' h hedit =>
          ⟨h.1.edited hedit, fun hk => (h.2 (Nat.le_of_succ_le hk)).edited
            (h.1.roomFor (Nat.lt_of_lt_of_le hk (by decide)) b') hedit⟩
      exact ⟨hnumbered.mono hk, hdistinct hk⟩

/-- **A session keeps connections wired.** By induction on the edits. -/
theorem Blueprint.Wired.session {b : Blueprint} (h : b.Wired catalog) (edits : List Edit) :
    (session catalog b edits).Wired catalog := by
  refine session_induction (P := fun _ b => b.Wired catalog) (k := 0) h (fun _ b edit hb => ?_) edits
  rcases after_cases catalog b edit with hsame | hedit
  · exact hsame.symm ▸ hb
  · exact hb.edited hedit

/-- A session raises the numbers of ids by one at most for each edit. -/
theorem Blueprint.NumberedTo.session {b : Blueprint} {k : Nat} (h : b.NumberedTo k)
    (edits : List Edit) : (session catalog b edits).NumberedTo (k + edits.length) := by
  refine session_induction (P := Blueprint.NumberedTo) h (fun k b edit hb => ?_) edits
  rcases after_cases catalog b edit with hsame | hedit
  · exact hsame.symm ▸ hb.mono (Nat.le_succ k)
  · exact hb.edited hedit

/-- There is room for the number of each id that is added in the session. -/
def RoomThroughout (catalog : Catalog) (start : Blueprint) (edits : List Edit) : Prop :=
  ∀ earlier edit later, edits = earlier ++ edit :: later →
    (session catalog start earlier).RoomFor (edit.after catalog (session catalog start earlier))

/-- **A session keeps ids distinct**, if there is room throughout. -/
theorem Blueprint.Distinct.session {b : Blueprint} (h : b.Distinct) {edits : List Edit}
    (room : RoomThroughout catalog b edits) : (session catalog b edits).Distinct := by
  induction edits generalizing b with
  | nil => exact h
  | cons edit rest ih =>
      have hnow : b.RoomFor (edit.after catalog b) := room [] edit rest rfl
      have hlater : RoomThroughout catalog (edit.after catalog b) rest :=
        fun earlier edit' later heq => room (edit :: earlier) edit' later (heq ▸ rfl)
      refine ih ?_ hlater
      rcases after_cases catalog b edit with hsame | hedit
      · exact hsame.symm ▸ h
      · exact h.edited hnow hedit

/-- **Every session that is not longer than the numbers last has room.** -/
theorem Blueprint.IsNew.roomThroughout {b : Blueprint} (h : b.IsNew catalog) {edits : List Edit}
    (hlength : edits.length < Nat.pow 2 64 - 8) : RoomThroughout catalog b edits := by
  intro earlier edit later heq
  refine (h.numbered.1.session earlier).roomFor ?_ _
  have hshorter : earlier.length < edits.length := by
    rw [heq, List.length_append, List.length_cons]
    omega
  have hlast : Text.lastNumber = Nat.pow 2 64 - 1 := rfl
  omega

end Runs

/-- **What holds in every session.**  The connections are wired, and an edit
    that fails changes nothing.  As long as there is room for the number of each
    id that is added, which there is in fewer than `2 ^ 64 - 8` edits, the ids
    are distinct, and the document of the blueprint and a catalog of distinct
    params is valid.  In any blueprint at all, the id of a node or connection
    that is added is new if the last number has not been used. -/
theorem session_keeps_invariants (catalog : Catalog) (start : Blueprint) (edits : List Edit)
    (hstart : start.IsNew catalog) :
    let b := session catalog start edits
    (b.Wired catalog ∧ ∀ (edit : Edit) (error : EditError),
        edit.apply catalog b = .error error → edit.after catalog b = b)
      ∧ (RoomThroughout catalog start edits → b.Distinct ∧ ∀ ds now, catalog = .ofList ds →
        (∀ d ∈ ds, d.Distinct) → (Document.withCatalog b catalog now).validate = .ok ())
      ∧ (edits.length < Nat.pow 2 64 - 8 → RoomThroughout catalog start edits)
      ∧ ∀ any : Blueprint,
        ((∀ id ∈ any.nodes.map Node.id, Text.number? id ≠ some Text.lastNumber) →
          ∀ definitionId position node edited,
            any.addNode catalog definitionId position = .ok (node, edited) →
            node.id ∉ any.nodes.map Node.id)
        ∧ ((∀ id ∈ any.connections.map Connection.id, Text.number? id ≠ some Text.lastNumber) →
          ∀ source target c edited, any.connect catalog source target = .ok (c, edited) →
            c.id ∉ any.connections.map Connection.id) := by
  refine ⟨⟨hstart.wired.session edits, fun edit error h => after_of_error h⟩, fun room => ?_,
    hstart.roomThroughout, fun any => ⟨?_, ?_⟩⟩
  · have hdistinct := hstart.numbered.2.session room
    refine ⟨hdistinct, fun ds now heq hds => ?_⟩
    have hvalid := validate_withCatalog hdistinct hds now
    rwa [← heq] at hvalid
  · intro room definitionId position node edited h
    exact (edited_of_addNode h).1 ▸ nextNodeId_not_mem room
  · intro room source target c edited h
    exact (edited_of_connect h).1 ▸ nextConnectionId_not_mem room

/-! ### A session with failing edits, and ids that were placed by hand -/

namespace Rewired

/-- The second connection is refused, because it is there already, and so is
    the edit of a node that is gone. -/
def edits : List Edit :=
  [.addNode "print" {}, .connect ⟨"node_1", "exec"⟩ ⟨"node_2", "exec"⟩,
    .connect ⟨"node_1", "exec"⟩ ⟨"node_2", "exec"⟩, .addNode "print" {}, .removeNode "node_2",
    .setInput "node_2" "value" (.int 1), .addNode "end" {},
    .connect ⟨"node_3", "exec"⟩ ⟨"node_4", "exec"⟩, .setVariable "x" (.int 3)]

/-- Ids of many spellings: with zeros in front, too large, and without a
    number. -/
def placed : Blueprint where
  nodes := [.new "node_0041" "print", .new "node_42" "print", .new "7" "print", .new "x" "print",
    .new "node_99999999999999999999" "print"]

theorem distinct_palette : ∀ d ∈ Palette.definitions, d.Distinct := by
  have hall : ∀ d ∈ Palette.definitions,
      (d.inputs.map Param.id).Nodup ∧ (d.outputs.map Param.id).Nodup := by
    decide
  exact fun d hd => ⟨(hall d hd).1, (hall d hd).2⟩

/-- The ids of the session are distinct, its document is valid, and a node
    that is added to the ids placed by hand has an id of its own. -/
theorem session_valid_and_added_new :
    (Blueprint.scaffold "Door" .function .builtin).IsNew .builtin
      ∧ (session .builtin (.scaffold "Door" .function .builtin) edits).Distinct
      ∧ (Document.withCatalog (session .builtin (.scaffold "Door" .function .builtin) edits)
        .builtin .epoch).validate = .ok ()
      ∧ ∃ node edited, placed.addNode .builtin "print" {} = .ok (node, edited)
        ∧ node.id ∉ placed.nodes.map Node.id := by
  have hstart : (Blueprint.scaffold "Door" .function .builtin).IsNew .builtin :=
    .scaffold "Door" .function
  obtain ⟨-, hdistinct, hroom, hnew⟩ := session_keeps_invariants .builtin _ edits hstart
  obtain ⟨hids, hvalid⟩ := hdistinct (hroom (by decide))
  refine ⟨hstart, hids, hvalid Palette.definitions .epoch rfl distinct_palette, ?_⟩
  have hroom' : ∀ id ∈ placed.nodes.map Node.id, Text.number? id ≠ some Text.lastNumber := by
    decide +kernel
  cases hadded : placed.addNode .builtin "print" {} with
  | error error =>
      have hok : (placed.addNode .builtin "print" {}).isOk = true := by decide +kernel
      rw [hadded] at hok
      exact nomatch hok
  | ok added =>
      exact ⟨added.1, added.2, rfl, (hnew placed).1 hroom' "print" {} added.1 added.2 hadded⟩

end Rewired

end Blueprints
