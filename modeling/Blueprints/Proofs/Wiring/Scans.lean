import Blueprints.Proofs.Wiring.Readers

/-! # The index and the scans

    What the index answers from its tables can be asked of the blueprint too,
    by a scan over its nodes and connections.  The two agree on the node of an
    id, on the connections that leave a node, and on those that are set aside.
    At a param they agree where the text that the connections are filed under
    tells the param; over all params that is so just where no connection in
    the tables has a colon in the ids of its end
    (`build_agrees_with_scans`). -/

namespace Blueprints

/-! ## Texts that tell the param -/

namespace Endpoint

/-- Neither id has a colon in it. -/
def Plain (e : Endpoint) : Prop := ':' ∉ e.node.toList ∧ ':' ∉ e.param.toList

theorem toList_key (e : Endpoint) : e.key.toList = e.node.toList ++ ':' :: e.param.toList := by
  rw [key, String.toList_append, String.toList_append, List.append_assoc]
  rfl

theorem count_key (e : Endpoint) :
    e.key.toList.count ':' = e.node.toList.count ':' + e.param.toList.count ':' + 1 := by
  rw [toList_key, List.count_append, List.count_cons_self, Nat.add_assoc]

/-- Ids without a colon can be told from the text, whatever the other ids
    are. -/
theorem Plain.eq_of_key {e f : Endpoint} (he : e.Plain) (h : f.key = e.key) : f = e := by
  -- the text has one colon, so `f` has none of its own
  have hcount := count_key f
  rw [h, count_key e, List.count_eq_zero.2 he.1, List.count_eq_zero.2 he.2] at hcount
  have hnode : ':' ∉ f.node.toList := List.count_eq_zero.1 (by omega)
  have hsame : f.node = e.node := node_eq_of_key h hnode he.1
  have htexts : f.key.toList = e.key.toList := congrArg String.toList h
  rw [toList_key, toList_key, hsame] at htexts
  have hparam : f.param.toList = e.param.toList :=
    List.cons_inj_right ':' |>.1 (List.append_cancel_left htexts)
  cases f
  cases e
  simp only [mk.injEq]
  exact ⟨hsame, String.toList_inj.1 hparam⟩

/-- A text with a second colon can be cut there as well. -/
theorem exists_key_of_not_plain {e : Endpoint} (he : ¬ e.Plain) : ∃ f : Endpoint,
    f.key = e.key ∧ f ≠ e := by
  rw [Plain, not_and_or, not_not, not_not] at he
  rcases he with hnode | hparam
  · obtain ⟨front, back, hcut⟩ := List.append_of_mem hnode
    refine ⟨⟨String.ofList front, String.ofList (back ++ ':' :: e.param.toList)⟩, ?_, ?_⟩
    · rw [← String.toList_inj, toList_key, toList_key, hcut]
      simp
    · intro hsame
      rw [← congrArg Endpoint.node hsame, String.toList_ofList] at hcut
      simp at hcut
  · obtain ⟨front, back, hcut⟩ := List.append_of_mem hparam
    refine ⟨⟨String.ofList (e.node.toList ++ ':' :: front), String.ofList back⟩, ?_, ?_⟩
    · rw [← String.toList_inj, toList_key, toList_key, hcut]
      simp
    · intro hsame
      rw [← congrArg Endpoint.param hsame, String.toList_ofList] at hcut
      have hlength := congrArg List.length hcut
      rw [List.length_append, List.length_cons] at hlength
      omega

/-- **The text tells the param** just where neither id has a colon. -/
theorem plain_iff (e : Endpoint) : e.Plain ↔ ∀ f : Endpoint, f.key = e.key → f = e := by
  constructor
  · intro he f h
    exact he.eq_of_key h
  · intro htells
    by_contra he
    obtain ⟨f, hkey, hne⟩ := exists_key_of_not_plain he
    exact hne (htells f hkey)

end Endpoint

/-! ## Scans -/

/-- Both ends of a connection are nodes of the blueprint. -/
def Blueprint.hasEnds (b : Blueprint) (c : Connection) : Bool :=
  (b.node? c.source.node).isSome && (b.node? c.target.node).isSome

namespace Index

/-- The index knows the connections with both ends. -/
theorem knows_build_eq (b : Blueprint) : (build b).knows = b.hasEnds := by
  have hnode : ∀ id, (build b).nodes.contains id = (b.node? id).isSome := by
    intro id
    rw [← node?_build, node?, Std.TreeMap.isSome_getElem?_eq_contains]
  ext c
  rw [knows, Blueprint.hasEnds, hnode, hnode]

section Params

variable (conns : List Connection) (known : Connection → Bool) (side : Connection → Endpoint)

/-- At one param: what is filed under its text is what a scan finds just where
    no other param of a known connection has that text. -/
theorem filed_eq_scan_iff (e : Endpoint) :
    conns.filter (fun c => known c && (side c).key == e.key)
        = (conns.filter (side · == e)).filter known
      ↔ ∀ c ∈ conns, known c = true → (side c).key = e.key → side c = e := by
  constructor
  · intro hsame c hc hknown hkey
    have hfiled : c ∈ conns.filter fun c => known c && (side c).key == e.key :=
      List.mem_filter.2 ⟨hc, by simp [hknown, hkey]⟩
    rw [hsame, List.mem_filter, List.mem_filter, beq_iff_eq] at hfiled
    exact hfiled.1.2
  · intro htells
    rw [List.filter_filter]
    refine List.filter_congr fun c hc => ?_
    cases hknown : known c with
    | false => rfl
    | true =>
        by_cases hkey : (side c).key = e.key
        · simp [htells c hc hknown hkey]
        · have hne : side c ≠ e := fun hside => hkey (congrArg Endpoint.key hside)
          simp [hkey, hne]

/-- At all params: the known connections have plain ends. -/
theorem forall_filed_eq_scan_iff :
    (∀ e : Endpoint, conns.filter (fun c => known c && (side c).key == e.key)
        = (conns.filter (side · == e)).filter known)
      ↔ ∀ c ∈ conns, known c = true → (side c).Plain := by
  simp only [filed_eq_scan_iff]
  constructor
  · intro h c hc hknown
    refine (Endpoint.plain_iff _).2 fun f hkey => ?_
    exact (h f c hc hknown hkey.symm).symm
  · intro h e c hc hknown hkey
    exact ((h c hc hknown).eq_of_key hkey.symm).symm

end Params

/-- **The index against the scans.**  For every blueprint the tables give the
    first node of an id, the connections with both ends that leave a node and
    the connections without an end, in the order of the blueprint.  At a param
    they give the connections whose end has the same text; that is what a scan
    for the param finds if and only if every such connection is at the param
    itself.  It is so at all params if and only if no connection with both
    ends has a colon in the ids of the end in question. -/
theorem build_agrees_with_scans (b : Blueprint) :
    (∀ id, (build b).node? id = b.node? id)
    ∧ (∀ id, (build b).leaving id
        = b.connections.filter fun c => b.hasEnds c && c.source.node == id)
    ∧ (build b).dangling = b.connections.filter (fun c => !b.hasEnds c)
    ∧ (∀ e, (build b).outgoing e
        = b.connections.filter fun c => b.hasEnds c && c.source.key == e.key)
    ∧ (∀ e, (build b).incoming e
        = b.connections.filter fun c => b.hasEnds c && c.target.key == e.key)
    ∧ (∀ e, (build b).outgoing e = (b.connectionsFrom e).filter b.hasEnds
        ↔ ∀ c ∈ b.connections, b.hasEnds c = true → c.source.key = e.key → c.source = e)
    ∧ (∀ e, (build b).incoming e = (b.connectionsTo e).filter b.hasEnds
        ↔ ∀ c ∈ b.connections, b.hasEnds c = true → c.target.key = e.key → c.target = e)
    ∧ ((∀ e, (build b).outgoing e = (b.connectionsFrom e).filter b.hasEnds)
        ↔ ∀ c ∈ b.connections, b.hasEnds c = true → c.source.Plain)
    ∧ ((∀ e, (build b).incoming e = (b.connectionsTo e).filter b.hasEnds)
        ↔ ∀ c ∈ b.connections, b.hasEnds c = true → c.target.Plain) := by
  have hknows := knows_build_eq b
  have hleaving := leaving_build b
  have hdangling := dangling_build b
  have houtgoing := outgoing_build b
  have hincoming := incoming_build b
  rw [hknows] at hleaving hdangling houtgoing hincoming
  refine ⟨node?_build b, hleaving, hdangling, houtgoing, hincoming, ?_, ?_, ?_, ?_⟩
  · intro e
    rw [houtgoing e]
    exact filed_eq_scan_iff b.connections b.hasEnds Connection.source e
  · intro e
    rw [hincoming e]
    exact filed_eq_scan_iff b.connections b.hasEnds Connection.target e
  · simp only [houtgoing]
    exact forall_filed_eq_scan_iff b.connections b.hasEnds Connection.source
  · simp only [hincoming]
    exact forall_filed_eq_scan_iff b.connections b.hasEnds Connection.target

/-! ### Two params with one text -/

namespace Lookalike

/-- A constant whose id has a colon feeds a print. -/
def wire : Connection := { id := "c1", source := ⟨"a:b", "c"⟩, target := ⟨"n", "value"⟩ }

def blueprint : Blueprint :=
  { id := "b", name := "F", kind := .function
    nodes := [{ id := "a", definitionId := "print" },
      { id := "a:b", definitionId := "number_constant" }, { id := "n", definitionId := "print" }]
    connections := [wire] }

/-- Node `a` has no such output, but the index gives it the connection of node
    `a:b`; at the print the two agree. -/
theorem filed_and_not_scanned :
    (build blueprint).outgoing ⟨"a", "b:c"⟩ = [wire]
    ∧ (blueprint.connectionsFrom ⟨"a", "b:c"⟩).filter blueprint.hasEnds = []
    ∧ ∀ e, (build blueprint).incoming e = (blueprint.connectionsTo e).filter blueprint.hasEnds := by
  obtain ⟨-, -, -, houtgoing, -, -, -, -, hincoming⟩ := build_agrees_with_scans blueprint
  refine ⟨?_, by decide, hincoming.2 ?_⟩
  · rw [houtgoing]
    decide
  · intro c hc _
    obtain rfl : c = wire := List.mem_singleton.1 hc
    exact ⟨by decide, by decide⟩

end Lookalike

end Index

end Blueprints
