import Blueprints.Proofs.Graph.Sessions

/-! # Undoing additions

    A node or connection that was added can be taken out by its id.  In a
    session this gives back the blueprint that was there before: the new id is
    that of nothing else, so the first thing with it is the last one added, and
    no connection leads to a node that was not there (`takeOut_of_apply`).

    Additions can also be tried one inside the other, each undone before those
    that were made ahead of it.  What is still to be undone then leads back to
    the first blueprint step by step (`Unwinds`).  Every move keeps this, so
    moves in brackets give back the blueprint they started from
    (`additions_undone_exactly`). -/

namespace Blueprints

/-! ## Additions -/

/-- What an edit added to a blueprint. -/
inductive Added where
  | node (node : Node)
  | connection (connection : Connection)
  deriving DecidableEq

/-- An edit that adds something. -/
inductive Addition where
  | node (definitionId : String) (position : Position)
  | connection (source target : Endpoint)

/-- What is added and the blueprint with it, or why the edit fails. -/
def Addition.apply (catalog : Catalog) (b : Blueprint) :
    Addition → Except EditError (Added × Blueprint)
  | .node definitionId position =>
    (b.addNode catalog definitionId position).map fun r => (.node r.1, r.2)
  | .connection source target =>
    (b.connect catalog source target).map fun r => (.connection r.1, r.2)

/-- What is found under the id of something that was added, and the blueprint
    without it. -/
def Added.takeOut (b : Blueprint) : Added → Except EditError (Added × Blueprint)
  | .node n => (b.removeNode n.id).map fun r => (.node r.1, r.2)
  | .connection c => (b.removeConnection c.id).map fun r => (.connection r.1, r.2)

section Undoing

variable {catalog : Catalog} {b b' : Blueprint}

/-- Under a new id the last member of a list is found, and the list without it
    is the one before. -/
theorem find?_and_eraseP_append_new {α : Type} (id : α → String) {as : List α} {a : α}
    (hnew : id a ∉ as.map id) :
    (as ++ [a]).find? (id · == id a) = some a ∧ (as ++ [a]).eraseP (id · == id a) = as := by
  have hother : ∀ x ∈ as, ¬(id x == id a) = true := by
    intro x hx heq
    exact hnew (eq_of_beq heq ▸ List.mem_map_of_mem hx)
  constructor
  · rw [List.find?_append, List.find?_eq_none.2 hother, List.find?_singleton,
      if_pos (beq_self_eq_true _)]
    rfl
  · rw [List.eraseP_append_right _ hother]
    simp

/-- In a wired blueprint no connection touches an id that no node has. -/
theorem Blueprint.Wired.filter_touches (h : b.Wired catalog) {id : String}
    (hnew : id ∉ b.nodes.map Node.id) :
    (b.connections.filter fun c => !c.touches id) = b.connections := by
  have hid : ∀ {id' : String} {n : Node}, b.node? id' = some n → id' ≠ id := by
    rintro id' n hn rfl
    have hfound := List.find?_some (show b.nodes.find? (·.id == id') = some n from hn)
    exact hnew (eq_of_beq hfound ▸ List.mem_map_of_mem (List.mem_of_find?_eq_some hn))
  refine List.filter_eq_self.2 fun c hc => ?_
  obtain ⟨source, target, -, -, -, -, hsource, htarget, -⟩ := h.joins c hc
  rw [Connection.touches, beq_false_of_ne (hid hsource), beq_false_of_ne (hid htarget)]
  rfl

/-- **A node that was added is taken out again**, and nothing with it. -/
theorem removeNode_of_addNode (hwired : b.Wired catalog)
    (hroom : ∀ id ∈ b.nodes.map Node.id, Text.number? id ≠ some Text.lastNumber)
    {definitionId : String} {position : Position} {node : Node}
    (h : b.addNode catalog definitionId position = .ok (node, b')) :
    b'.removeNode node.id = .ok (node, b) := by
  obtain ⟨hminted, rfl⟩ := eq_of_addNode h
  have hnew : node.id ∉ b.nodes.map Node.id := hminted ▸ nextNodeId_not_mem hroom
  obtain ⟨hfind, herase⟩ := find?_and_eraseP_append_new Node.id hnew
  rw [Blueprint.removeNode, Blueprint.node?]
  dsimp only
  rw [hfind]
  dsimp only
  rw [herase, hwired.filter_touches hnew]

/-- **A connection that was added is taken out again.** -/
theorem removeConnection_of_connect
    (hroom : ∀ id ∈ b.connections.map Connection.id, Text.number? id ≠ some Text.lastNumber)
    {source target : Endpoint} {c : Connection}
    (h : b.connect catalog source target = .ok (c, b')) :
    b'.removeConnection c.id = .ok (c, b) := by
  obtain ⟨hminted, -, -, rfl⟩ := eq_of_connect h
  have hnew : c.id ∉ b.connections.map Connection.id := hminted ▸ nextConnectionId_not_mem hroom
  obtain ⟨hfind, herase⟩ := find?_and_eraseP_append_new Connection.id hnew
  rw [Blueprint.removeConnection, Blueprint.connection?, Blueprint.addConnection]
  dsimp only
  rw [hfind]
  dsimp only
  rw [herase]

/-- **What was added is found under its id, and without it the blueprint is the
    one before.** -/
theorem takeOut_of_apply (hwired : b.Wired catalog) (room : b.RoomFor b') {a : Addition}
    {added : Added} (h : a.apply catalog b = .ok (added, b')) :
    added.takeOut b' = .ok (added, b) := by
  cases a with
  | node definitionId position =>
      obtain ⟨⟨node, edited⟩, hadd, hpair⟩ := exists_of_map_ok h
      obtain ⟨rfl, rfl⟩ := Prod.mk.inj hpair
      have hroom := room.nodes ((eq_of_addNode hadd).2 ▸ length_lt_append_new b.nodes node)
      rw [Added.takeOut, removeNode_of_addNode hwired hroom hadd]
      rfl
  | connection source target =>
      obtain ⟨⟨c, edited⟩, hconnect, hpair⟩ := exists_of_map_ok h
      obtain ⟨rfl, rfl⟩ := Prod.mk.inj hpair
      obtain ⟨-, -, -, hedited⟩ := eq_of_connect hconnect
      have hroom := room.connections (hedited ▸ length_lt_append_new b.connections c)
      rw [Added.takeOut, removeConnection_of_connect hroom hconnect]
      rfl

/-- To add something is an edit. -/
theorem edited_of_addition {a : Addition} {added : Added}
    (h : a.apply catalog b = .ok (added, b')) : Edited catalog b b' := by
  cases a with
  | node definitionId position =>
      obtain ⟨⟨node, edited⟩, hadd, hpair⟩ := exists_of_map_ok h
      obtain ⟨-, rfl⟩ := Prod.mk.inj hpair
      exact (edited_of_addNode hadd).2
  | connection source target =>
      obtain ⟨⟨c, edited⟩, hconnect, hpair⟩ := exists_of_map_ok h
      obtain ⟨-, rfl⟩ := Prod.mk.inj hpair
      exact (edited_of_connect hconnect).2

/-- To take something out is an edit. -/
theorem edited_of_takeOut {added taken : Added} (h : added.takeOut b = .ok (taken, b')) :
    Edited catalog b b' := by
  cases added with
  | node n =>
      obtain ⟨⟨node, edited⟩, hremove, hpair⟩ := exists_of_map_ok h
      obtain ⟨-, rfl⟩ := Prod.mk.inj hpair
      exact edited_of_removeNode hremove
  | connection c =>
      obtain ⟨⟨c', edited⟩, hremove, hpair⟩ := exists_of_map_ok h
      obtain ⟨-, rfl⟩ := Prod.mk.inj hpair
      exact edited_of_removeConnection hremove

end Undoing

/-! ## Additions on trial -/

/-- A blueprint on which additions are tried. -/
structure Trial where
  blueprint : Blueprint
  /-- What is to be taken out again, the last addition first.  Where an addition
      failed there is nothing to be taken out. -/
  pending : List (Option Added) := []
  /-- What was to be taken out, and what was found there. -/
  undone : List (Added × Except EditError Added) := []

namespace Trial

/-- To add something, or to undo the last addition that is not undone yet. -/
inductive Move where
  | add (addition : Addition)
  | undo

/-- A trial after a move. -/
def step (catalog : Catalog) (t : Trial) : Move → Trial
  | .add addition =>
    match addition.apply catalog t.blueprint with
    | .ok (added, b) => { t with blueprint := b, pending := some added :: t.pending }
    | .error _ => { t with pending := none :: t.pending }
  | .undo =>
    match t.pending with
    | [] => t
    | none :: rest => { t with pending := rest }
    | some added :: rest =>
      match added.takeOut t.blueprint with
      | .ok (taken, b) => ⟨b, rest, t.undone ++ [(added, .ok taken)]⟩
      | .error error => ⟨t.blueprint, rest, t.undone ++ [(added, .error error)]⟩

/-- A trial after moves. -/
def run (catalog : Catalog) (t : Trial) (moves : List Move) : Trial := moves.foldl (step catalog) t

/-- Moves in brackets: each addition is undone, and between the two stand
    moves in brackets. -/
inductive Bracketed : List Move → Prop where
  | nil : Bracketed []
  | pair (addition : Addition) {inside after : List Move} (hinside : Bracketed inside)
      (hafter : Bracketed after) : Bracketed (.add addition :: inside ++ .undo :: after)

/-- There is room for the number of each id that is added on the way. -/
def RoomThroughout (catalog : Catalog) (t : Trial) (moves : List Move) : Prop :=
  ∀ earlier move later, moves = earlier ++ move :: later →
    (t.run catalog earlier).blueprint.RoomFor
      ((t.run catalog earlier).step catalog move).blueprint

variable {catalog : Catalog} {t : Trial}

/-! ## What a move keeps -/

/-- Taking out what is pending, the last of it first, finds it and leads back
    to a blueprint. -/
inductive Unwinds (b : Blueprint) : Blueprint → List (Option Added) → Prop where
  | start : Unwinds b b []
  | failed {b' : Blueprint} {rest : List (Option Added)} (h : Unwinds b b' rest) :
      Unwinds b b' (none :: rest)
  | added {b' before : Blueprint} {rest : List (Option Added)} {added : Added}
      (htake : added.takeOut b' = .ok (added, before)) (h : Unwinds b before rest) :
      Unwinds b b' (some added :: rest)

/-- What is pending leads back to a blueprint, and what was taken out was what
    had been added. -/
structure LeadsBack (t : Trial) (b : Blueprint) : Prop where
  unwinds : Unwinds b t.blueprint t.pending
  undone : ∀ entry ∈ t.undone, entry.2 = .ok entry.1

/-- After a move a blueprint is as it was, or edited. -/
theorem step_cases (catalog : Catalog) (t : Trial) (move : Move) :
    (t.step catalog move).blueprint = t.blueprint
      ∨ Edited catalog t.blueprint (t.step catalog move).blueprint := by
  cases move with
  | add addition =>
      rw [step]
      split
      · next hadd => exact Or.inr (edited_of_addition hadd)
      · exact Or.inl rfl
  | undo =>
      rw [step]
      split
      · exact Or.inl rfl
      · exact Or.inl rfl
      · split
        · next htake => exact Or.inr (edited_of_takeOut htake)
        · exact Or.inl rfl

/-- **A move keeps the way back.** -/
theorem LeadsBack.step {b : Blueprint} (h : t.LeadsBack b) (hwired : t.blueprint.Wired catalog)
    {move : Move} (room : t.blueprint.RoomFor (t.step catalog move).blueprint) :
    (t.step catalog move).LeadsBack b := by
  cases move with
  | add addition =>
      rw [Trial.step] at room ⊢
      cases happly : addition.apply catalog t.blueprint with
      | ok result =>
          rw [happly] at room
          exact ⟨.added (takeOut_of_apply hwired room happly) h.unwinds, h.undone⟩
      | error error => exact ⟨.failed h.unwinds, h.undone⟩
  | undo =>
      obtain ⟨blueprint, pending, undone⟩ := t
      obtain ⟨hunwinds, hundone⟩ := h
      rw [Trial.step]
      cases hunwinds with
      | start => exact ⟨.start, hundone⟩
      | failed hrest => exact ⟨hrest, hundone⟩
      | added htake hrest =>
          dsimp only
          rw [htake]
          refine ⟨hrest, fun entry hentry => ?_⟩
          rcases List.mem_append.1 hentry with hold | hlast
          · exact hundone entry hold
          · rw [List.mem_singleton.1 hlast]

/-- **Moves keep the way back**, by induction on them. -/
theorem LeadsBack.run {b : Blueprint} (h : t.LeadsBack b) (hwired : t.blueprint.Wired catalog)
    {moves : List Move} (room : t.RoomThroughout catalog moves) :
    (t.run catalog moves).LeadsBack b := by
  induction moves generalizing t with
  | nil => exact h
  | cons move rest ih =>
      have hnow : t.blueprint.RoomFor (t.step catalog move).blueprint := room [] move rest rfl
      have hwired' : (t.step catalog move).blueprint.Wired catalog := by
        rcases step_cases catalog t move with hsame | hedit
        · exact hsame.symm ▸ hwired
        · exact hwired.edited hedit
      refine ih (h.step hwired hnow) hwired' fun earlier move' later heq => ?_
      exact room (move :: earlier) move' later (heq ▸ rfl)

/-! ## Brackets -/

/-- Moves in brackets leave what is pending, whether the additions fail or
    not. -/
theorem Bracketed.pending {moves : List Move} (h : Bracketed moves) (t : Trial) :
    (t.run catalog moves).pending = t.pending := by
  induction h generalizing t with
  | nil => rfl
  | pair addition hinside hafter ihinside ihafter =>
      have hadd : ∃ added, (t.step catalog (.add addition)).pending = added :: t.pending := by
        rw [step]
        split
        · exact ⟨_, rfl⟩
        · exact ⟨_, rfl⟩
      have hundo : ∀ {t : Trial} {added : Option Added} {rest : List (Option Added)},
          t.pending = added :: rest → (t.step catalog .undo).pending = rest := by
        intro t added rest hpending
        rw [step, hpending]
        cases added with
        | none => rfl
        | some added =>
            dsimp only
            split
            · rfl
            · rfl
      obtain ⟨added, hadded⟩ := hadd
      rw [List.cons_append, run, List.foldl_cons, List.foldl_append, List.foldl_cons]
      have hinside := (ihinside (t.step catalog (.add addition))).trans hadded
      exact (ihafter _).trans (hundo hinside)

/-- There is room for as many moves as the numbers last. -/
theorem roomThroughout_of_numberedTo {k : Nat} (h : t.blueprint.NumberedTo k) {moves : List Move}
    (hk : k + moves.length ≤ Text.lastNumber) : t.RoomThroughout catalog moves := by
  induction moves generalizing t k with
  | nil =>
      intro earlier move later heq
      simp at heq
  | cons first rest ih =>
      rw [List.length_cons] at hk
      have hnext : (t.step catalog first).blueprint.NumberedTo (k + 1) := by
        rcases step_cases catalog t first with hsame | hedit
        · exact hsame.symm ▸ h.mono (Nat.le_succ k)
        · exact h.edited hedit
      intro earlier move later heq
      cases earlier with
      | nil => exact h.roomFor (by omega) _
      | cons move' earlier =>
          obtain ⟨rfl, hrest⟩ := List.cons.inj heq
          exact ih hnext (by omega) earlier move later hrest

end Trial

/-- **Additions are undone exactly.**  In every blueprint that a session comes
    to, a node that is added is taken out by its id, and so is a connection, and
    the blueprint is the one before, if the last number has not been used.
    Additions that are tried in brackets are each found again where they are
    undone, and give back the blueprint they started from, if there is room for
    their numbers.  That is so if session and moves are fewer than
    `2 ^ 64 - 8`. -/
theorem additions_undone_exactly (catalog : Catalog) (start : Blueprint) (edits : List Edit)
    (hstart : start.IsNew catalog) :
    let b := session catalog start edits
    ((∀ id ∈ b.nodes.map Node.id, Text.number? id ≠ some Text.lastNumber) →
        ∀ definitionId position node b',
          b.addNode catalog definitionId position = .ok (node, b') →
          b'.removeNode node.id = .ok (node, b))
      ∧ ((∀ id ∈ b.connections.map Connection.id, Text.number? id ≠ some Text.lastNumber) →
        ∀ source target c b', b.connect catalog source target = .ok (c, b') →
          b'.removeConnection c.id = .ok (c, b))
      ∧ ∀ moves : List Trial.Move,
        (Trial.RoomThroughout catalog { blueprint := b } moves → Trial.Bracketed moves →
          let t := Trial.run catalog { blueprint := b } moves
          t.blueprint = b ∧ t.pending = [] ∧ ∀ entry ∈ t.undone, entry.2 = .ok entry.1)
        ∧ (edits.length + moves.length < Nat.pow 2 64 - 8 →
          Trial.RoomThroughout catalog { blueprint := b } moves) := by
  intro b
  have hwired : b.Wired catalog := hstart.wired.session edits
  refine ⟨?_, ?_, ?_⟩
  · intro room definitionId position node b' hadd
    exact removeNode_of_addNode hwired room hadd
  · intro room source target c b' hconnect
    exact removeConnection_of_connect room hconnect
  · intro moves
    refine ⟨?_, ?_⟩
    · intro room hbracketed
      have hback : ({ blueprint := b } : Trial).LeadsBack b :=
        ⟨.start, fun _ hentry => absurd hentry List.not_mem_nil⟩
      obtain ⟨hunwinds, hundone⟩ := hback.run hwired room
      have hpending : (Trial.run catalog { blueprint := b } moves).pending = [] :=
        hbracketed.pending { blueprint := b }
      -- with nothing pending the way back has no step left
      rw [hpending] at hunwinds
      refine ⟨?_, hpending, hundone⟩
      generalize (Trial.run catalog { blueprint := b } moves).blueprint = last at hunwinds
      cases hunwinds
      rfl
    · intro hlength
      refine Trial.roomThroughout_of_numberedTo (hstart.numbered.1.session edits) ?_
      have hlast : Text.lastNumber = Nat.pow 2 64 - 1 := rfl
      omega

/-! ### A door that is tried out -/

namespace TriedDoor

/-- A print is put in and connected; inside, a node of no definition is tried,
    and the connection is tried a second time, which is refused.  Then a constant
    is tried where the connection was. -/
def moves : List Trial.Move :=
  [.add (.node "print" {}), .add (.connection ⟨"node_1", "exec"⟩ ⟨"node_2", "exec"⟩),
    .add (.node "ghost" {}), .add (.connection ⟨"node_1", "exec"⟩ ⟨"node_2", "exec"⟩), .undo, .undo,
    .undo, .add (.node "number_constant" {}), .undo, .undo]

/-- The moves are in brackets. -/
theorem bracketed : Trial.Bracketed moves :=
  .pair (.node "print" {})
    (.pair (.connection ⟨"node_1", "exec"⟩ ⟨"node_2", "exec"⟩)
      (.pair (.node "ghost" {})
        (.pair (.connection ⟨"node_1", "exec"⟩ ⟨"node_2", "exec"⟩) .nil .nil) .nil)
      (.pair (.node "number_constant" {}) .nil .nil))
    .nil

/-- A door with a variable. -/
def door : Blueprint :=
  session .builtin (.scaffold "Door" .function .builtin) [.setVariable "open" (.bool false)]

/-- What is taken out, in this order. -/
def taken : List Added :=
  [.connection ⟨"conn_1", ⟨"node_1", "exec"⟩, ⟨"node_2", "exec"⟩⟩,
    .node ⟨"node_3", "number_constant", "Number Constant", {}, [("value", .int 0)], []⟩,
    .node ⟨"node_2", "print", "Print", {}, [], []⟩]

theorem undone_in_order_with_room :
    (Trial.run .builtin { blueprint := door } moves).undone.map Prod.fst = taken
      ∧ (door.addNode .builtin "print" {}).isOk = true
      ∧ ∀ id ∈ door.nodes.map Node.id, Text.number? id ≠ some Text.lastNumber := by
  decide +kernel

/-- A single print is taken out as it was added; and the tries give back the
    door, after all three that succeeded were found again. -/
theorem door_given_back :
    (Blueprint.scaffold "Door" .function .builtin).IsNew .builtin ∧ Trial.Bracketed moves
      ∧ (∃ node b', door.addNode .builtin "print" {} = .ok (node, b')
        ∧ b'.removeNode node.id = .ok (node, door))
      ∧ (Trial.run .builtin { blueprint := door } moves).blueprint = door
      ∧ (Trial.run .builtin { blueprint := door } moves).undone.map Prod.fst = taken
      ∧ ∀ entry ∈ (Trial.run .builtin { blueprint := door } moves).undone,
        entry.2 = .ok entry.1 := by
  obtain ⟨htaken, hok, hroom⟩ := undone_in_order_with_room
  have hstart : (Blueprint.scaffold "Door" .function .builtin).IsNew .builtin :=
    .scaffold "Door" .function
  obtain ⟨hnode, -, htries⟩ := additions_undone_exactly .builtin _
    [.setVariable "open" (.bool false)] hstart
  obtain ⟨hback, hmany⟩ := htries moves
  obtain ⟨hdoor, -, hfound⟩ := hback (hmany (by decide)) bracketed
  refine ⟨hstart, bracketed, ?_, hdoor, htaken, hfound⟩
  cases hadded : door.addNode .builtin "print" {} with
  | error error =>
      rw [hadded] at hok
      exact absurd hok Bool.false_ne_true
  | ok added =>
      exact ⟨added.1, added.2, rfl, hnode hroom "print" {} added.1 added.2 hadded⟩

end TriedDoor

end Blueprints
