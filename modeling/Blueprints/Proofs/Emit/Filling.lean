import Blueprints.Proofs.Emit.Descent

/-! # Filling reserved blocks

    A visit reserves blocks and leaves exits behind it, each with a block
    that is filled later.  This module says what the text will be once the
    exits are filled: for every way `go` to tell of a node, filling the exits
    with what `go` tells of them gives the text that the descent gives
    (`Lays`).  The text of an exit stands at the end of its block, so the
    blocks of the exits are given what comes at their ends (`fill`). -/

namespace Blueprints

open Arena (ahead ahead_self ahead_of_ne ahead_ahead ahead_comm)

/-- What comes at the end of each block. -/
abbrev Tail := Nat → List (Passage Statement)

/-- A tail puts nothing into blocks from a number on. -/
def Tail.QuietFrom (tail : Tail) (size : Nat) : Prop := ∀ id, size ≤ id → tail id = []

/-- A tail that is quiet from a number on is quiet from any later one on. -/
theorem Tail.QuietFrom.mono {tail : Tail} {size size' : Nat} (h : tail.QuietFrom size)
    (hle : size ≤ size') : tail.QuietFrom size' :=
  fun id hid => h id (Nat.le_trans hle hid)

/-- A block below a number may be given more. -/
theorem Tail.QuietFrom.ahead {tail : Tail} {size b : Nat} (h : tail.QuietFrom size)
    (hb : b < size) (ps : List (Passage Statement)) :
    Tail.QuietFrom (Arena.ahead tail b ps) size := by
  intro id hid
  rw [ahead_of_ne (by omega)]
  exact h id hid

/-- **Opening a block.**  The second arena has a new block `y`, and text at
    the end of it stands at the end of `b`, wrapped and ahead of what else
    comes there. -/
structure Opens (a a' : Arena Statement) (b y : Nat)
    (wrap : List (Passage Statement) → List (Passage Statement)) : Prop where
  closed : a'.Closed
  fresh : a.size ≤ y
  within : y < a'.size
  text : ∀ {tail : Tail}, tail.QuietFrom a.size → ∀ ps qs, ∀ id < a.size,
    a'.passages (ahead (ahead tail b ps) y qs) id = a.passages (ahead tail b (wrap qs ++ ps)) id

section Opening

variable {a : Arena Statement} {b : Nat}

theorem Opens.lt {a' : Arena Statement} {y : Nat}
    {wrap : List (Passage Statement) → List (Passage Statement)} (h : Opens a a' b y wrap)
    (hb : b < a.size) : b < a'.size :=
  Nat.lt_trans (Nat.lt_of_lt_of_le hb h.fresh) h.within

/-- **A block that is reserved is opened**, wrapped as its place says. -/
theorem opens_reserve (closed : a.Closed) (hb : b < a.size) (place : Place) :
    Opens a (a.reserve place b).2 b a.size place.wrap where
  closed := closed.reserve place b
  fresh := Nat.le_refl _
  within := by
    rw [Arena.size_reserve]
    exact Nat.lt_succ_self _
  text hquiet ps qs _ hid :=
    Arena.passages_reserve_filled closed hb place (hquiet _ (Nat.le_refl _)) ps qs hid

/-- A line ahead of the new block. -/
theorem Opens.afterLine (hb : b < a.size) {l : Statement} {a' : Arena Statement} {y : Nat}
    {wrap : List (Passage Statement) → List (Passage Statement)}
    (h : Opens (a.line b l) a' b y wrap) :
    Opens a a' b y fun qs => .line l :: wrap qs where
  closed := h.closed
  fresh := by
    rw [← Arena.size_line a b l]
    exact h.fresh
  within := h.within
  text {tail} hquiet ps qs id hid := by
    rw [← Arena.size_line a b l] at hquiet hid
    rw [h.text hquiet ps qs id hid, Arena.passages_line hb, ahead_ahead]
    rfl

/-- A line behind the new block. -/
theorem Opens.thenLine (hb : b < a.size) {l : Statement} {a' : Arena Statement} {y : Nat}
    {wrap : List (Passage Statement) → List (Passage Statement)} (h : Opens a a' b y wrap) :
    Opens a (a'.line b l) b y fun qs => wrap qs ++ [.line l] where
  closed := Arena.Closed.line h.closed b l
  fresh := h.fresh
  within := by
    rw [Arena.size_line]
    exact h.within
  text {tail} hquiet ps qs id hid := by
    have hnew := h.fresh
    have hwithin := h.within
    rw [Arena.passages_line (by omega), ahead_comm _ (by omega), ahead_ahead,
      h.text hquiet _ qs id hid, List.append_assoc]

/-- A block between two lines. -/
theorem opens_bracket (closed : a.Closed) (hb : b < a.size) (first last : Statement) {y : Nat}
    (hy : y = a.size) :
    Opens a (((a.line b first).reserve .nested b).2.line b last) b y
      fun qs => [.line first, .deeper qs, .line last] := by
  subst hy
  have h := opens_reserve (closed.line b first) (by simpa using hb) .nested
  rw [Arena.size_line] at h
  exact (h.afterLine hb).thenLine hb

/-- A block that ends with a line of its own, between two lines. -/
theorem opens_case (closed : a.Closed) (hb : b < a.size) (first leave last : Statement)
    {c y : Nat} (hc : c = a.size) (hy : y = a.size + 1) :
    Opens a (((((a.line b first).reserve .nested b).2.reserve .inline c).2.line c
        leave).line b last) b y
      fun qs => [.line first, .deeper (qs ++ [.line leave]), .line last] := by
  subst hc hy
  have hsize : ((a.line b first).reserve .nested b).2.size = a.size + 1 := by simp
  have houter := opens_reserve (closed.line b first) (by simpa using hb) .nested
  rw [Arena.size_line] at houter
  have hinner := (opens_reserve houter.closed houter.within .inline).thenLine
    (l := leave) houter.within
  rw [hsize] at hinner
  -- the line that ends the new block stands in it, so the blocks open one in the other
  have hboth : Opens (a.line b first)
      ((((a.line b first).reserve .nested b).2.reserve .inline a.size).2.line a.size leave) b
      (a.size + 1) fun qs => [.deeper (qs ++ [.line leave])] := by
    refine ⟨hinner.closed, by simp, hinner.within, fun {tail} hquiet ps qs id hid => ?_⟩
    rw [Arena.size_line] at hquiet hid
    have hquiet' : Tail.QuietFrom (ahead tail b ps) ((a.line b first).reserve .nested b).2.size :=
      (hquiet.mono (by omega)).ahead (by omega) ps
    have htext := hinner.text hquiet' [] qs id (by omega)
    rw [Arena.ahead_nil, List.append_nil] at htext
    rw [htext, houter.text (by simpa using hquiet) ps _ id (by simpa using hid)]
    rfl
  exact (hboth.afterLine hb).thenLine hb

end Opening

/-! ## Filling several blocks -/

/-- Puts passages in front of what comes at the ends of several blocks. -/
def fill (tail : Tail) : List (Nat × List (Passage Statement)) → Tail
  | [] => tail
  | (b, ps) :: rest => ahead (fill tail rest) b ps

/-- To fill blocks in two goes is to fill all of them. -/
theorem fill_append (tail : Tail) (ws ws' : List (Nat × List (Passage Statement))) :
    fill tail (ws ++ ws') = fill (fill tail ws') ws := by
  induction ws with
  | nil => rfl
  | cons w ws ih =>
      obtain ⟨b, ps⟩ := w
      show ahead (fill tail (ws ++ ws')) b ps = ahead (fill (fill tail ws') ws) b ps
      rw [ih]

/-- Only the blocks that are filled get anything. -/
theorem fill_of_not_mem {tail : Tail} {ws : List (Nat × List (Passage Statement))} {id : Nat}
    (h : id ∉ ws.map Prod.fst) : fill tail ws id = tail id := by
  induction ws with
  | nil => rfl
  | cons w ws ih =>
      obtain ⟨b, ps⟩ := w
      rw [List.map_cons, List.mem_cons, not_or] at h
      rw [fill, ahead_of_ne h.1]
      exact ih h.2

/-- What is put ahead in a block that is not filled can be put there before. -/
theorem fill_ahead {tail : Tail} {ws : List (Nat × List (Passage Statement))} {b : Nat}
    (h : b ∉ ws.map Prod.fst) (ps : List (Passage Statement)) :
    fill (ahead tail b ps) ws = ahead (fill tail ws) b ps := by
  induction ws with
  | nil => rfl
  | cons w ws ih =>
      obtain ⟨b', ps'⟩ := w
      rw [List.map_cons, List.mem_cons, not_or] at h
      rw [fill, fill, ih h.2, ahead_comm _ h.1]

/-- Blocks that are apart can be filled in any order. -/
theorem fill_comm (tail : Tail) {ws ws' : List (Nat × List (Passage Statement))}
    (h : ∀ b ∈ ws'.map Prod.fst, b ∉ ws.map Prod.fst) :
    fill (fill tail ws') ws = fill (fill tail ws) ws' := by
  induction ws' with
  | nil => rfl
  | cons w ws' ih =>
      obtain ⟨b, ps⟩ := w
      show fill (ahead (fill tail ws') b ps) ws = ahead (fill (fill tail ws) ws') b ps
      rw [fill_ahead (h b (by simp)), ih (fun b' hb' => h b' (by simp [hb']))]

/-! ## What is told of the exits -/

/-- What is told of nodes, each by itself. -/
def tellEach (go : String → Emission → Told) :
    List String → Emission → List (List (Passage Statement)) × Emission
  | [], e => ([], e)
  | id :: rest, e =>
    let (first, e) := go id e
    let (others, e) := tellEach go rest e
    (first :: others, e)

/-- What is told of nodes in two goes is told in one. -/
theorem tellEach_append (go : String → Emission → Told) (ids ids' : List String) (e : Emission) :
    tellEach go (ids ++ ids') e
      = ((tellEach go ids e).1 ++ (tellEach go ids' (tellEach go ids e).2).1,
        (tellEach go ids' (tellEach go ids e).2).2) := by
  induction ids generalizing e with
  | nil => rfl
  | cons id rest ih => simp only [List.cons_append, tellEach, ih]

theorem length_tellEach (go : String → Emission → Told) (ids : List String) (e : Emission) :
    (tellEach go ids e).1.length = ids.length := by
  induction ids generalizing e with
  | nil => rfl
  | cons id rest ih => simp only [tellEach, List.length_cons, ih]

/-- The blocks of exits, each with what is told of the node behind it. -/
def fillings (go : String → Emission → Told) (exits : List Exit) (s : Emission) :
    List (Nat × List (Passage Statement)) :=
  (exits.map Exit.block).zip (tellEach go (exits.map Exit.node) s).1

theorem map_fst_fillings (go : String → Emission → Told) (exits : List Exit) (s : Emission) :
    (fillings go exits s).map Prod.fst = exits.map Exit.block := by
  rw [fillings, List.map_fst_zip]
  exact Nat.le_of_eq (by rw [length_tellEach, List.length_map, List.length_map])

/-- To fill exits in two goes is to fill all of them, the second ones from where the
    first ones have led. -/
theorem fillings_append (go : String → Emission → Told) (exits exits' : List Exit)
    (s : Emission) :
    fillings go (exits ++ exits') s
      = fillings go exits s
        ++ fillings go exits' (tellEach go (exits.map Exit.node) s).2 := by
  rw [fillings, List.map_append, List.map_append, tellEach_append, List.zip_append]
  · rfl
  · rw [length_tellEach, List.length_map, List.length_map]

/-- **Laying out.**  The second arena has come from the first by writing at
    the end of a block and leaving exits behind.  Once the exits are filled,
    the text `told` stands at the end of the block. -/
structure Lays (go : String → Emission → Told) (b : Nat) (a : Arena Statement)
    (exits : List Exit) (a' : Arena Statement) (told : Emission → Told) : Prop where
  size : a.size ≤ a'.size
  closed : a'.Closed
  within : ∀ x ∈ exits, x.block < a'.size
  apart : ∀ x ∈ exits, x.block = b ∨ a.size ≤ x.block
  state : ∀ s, (told s).2 = (tellEach go (exits.map Exit.node) s).2
  text : ∀ s (tail : Tail), tail.QuietFrom a.size → ∀ id < a.size,
    a'.passages (fill tail (fillings go exits s)) id = a.passages (ahead tail b (told s).1) id

section Laying

variable {go : String → Emission → Told} {a a₀ a₁ a₂ : Arena Statement} {b y z : Nat}
  {told told₁ told₂ : Emission → Told} {exits exits₁ exits₂ : List Exit}

/-- To write nothing lays out nothing. -/
theorem Lays.none (closed : a.Closed) : Lays go b a [] a fun s => ([], s) where
  size := Nat.le_refl _
  closed := closed
  within := nofun
  apart := nofun
  state _ := rfl
  text s tail _ id _ := by
    rw [Arena.ahead_nil]
    rfl

theorem Lays.congr (h : Lays go b a exits a₁ told) (heq : ∀ s, told s = told₁ s) :
    Lays go b a exits a₁ told₁ :=
  funext heq ▸ h

/-- An exit in the block itself is filled at its end. -/
theorem Lays.one (closed : a.Closed) (hb : b < a.size) (id : String) :
    Lays go b a [⟨id, b⟩] a (go id) where
  size := Nat.le_refl _
  closed := closed
  within x hx := by
    obtain rfl := List.mem_singleton.1 hx
    exact hb
  apart x hx := by
    obtain rfl := List.mem_singleton.1 hx
    exact Or.inl rfl
  state _ := rfl
  text _ _ _ _ _ := rfl

/-- Exits that were left at the ends of two blocks, one after the other. -/
theorem Lays.both (h₁ : Lays go y a exits₁ a₁ told₁) (h₂ : Lays go z a₁ exits₂ a₂ told₂)
    (hne : y ≠ z) (hz : z < a.size) (s : Emission) {tail : Tail}
    (hquiet : tail.QuietFrom a.size) {id : Nat} (hid : id < a.size) :
    a₂.passages (fill tail (fillings go (exits₁ ++ exits₂) s)) id
      = a.passages (ahead (ahead tail z (told₂ (told₁ s).2).1) y (told₁ s).1) id := by
  have hkeys₁ : ∀ k ∈ (fillings go exits₁ s).map Prod.fst, k < a₁.size ∧ (k = y ∨ a.size ≤ k) := by
    intro k hk
    rw [map_fst_fillings] at hk
    obtain ⟨x, hx, rfl⟩ := List.mem_map.1 hk
    exact ⟨h₁.within x hx, h₁.apart x hx⟩
  have hsize := h₁.size
  rw [fillings_append, fill_append, ← h₁.state s, fill_comm]
  · rw [h₂.text _ _ ?_ id (by omega)]
    · rw [← fill_ahead ?_, h₁.text s _ (hquiet.ahead hz _) id hid]
      intro hk
      rcases (hkeys₁ z hk).2 with heq | hge
      · exact hne heq.symm
      · omega
    · intro k hk
      rw [fill_of_not_mem (fun hmem => by have := (hkeys₁ k hmem).1; omega)]
      exact hquiet k (by omega)
  · intro k hk₂ hk₁
    rw [map_fst_fillings] at hk₂
    obtain ⟨x, hx, rfl⟩ := List.mem_map.1 hk₂
    have hlt := (hkeys₁ _ hk₁).1
    rcases h₂.apart x hx with heq | hge
    · rcases (hkeys₁ _ hk₁).2 with heq' | hge'
      · exact hne (heq'.symm.trans heq)
      · omega
    · omega

/-- The exits of two parts go on in the blocks of the parts or in new ones. -/
theorem Lays.both_apart (h₁ : Lays go y a exits₁ a₁ told₁) (h₂ : Lays go z a₁ exits₂ a₂ told₂) :
    ∀ x ∈ exits₁ ++ exits₂, x.block = y ∨ x.block = z ∨ a.size ≤ x.block := by
  intro x hx
  have hsize := h₁.size
  rcases List.mem_append.1 hx with hx | hx
  · rcases h₁.apart x hx with h | h
    · exact Or.inl h
    · exact Or.inr (Or.inr h)
  · rcases h₂.apart x hx with h | h
    · exact Or.inr (Or.inl h)
    · exact Or.inr (Or.inr (by omega))

/-- The exits of two parts go on in blocks that are there. -/
theorem Lays.both_within (h₁ : Lays go y a exits₁ a₁ told₁) (h₂ : Lays go z a₁ exits₂ a₂ told₂) :
    ∀ x ∈ exits₁ ++ exits₂, x.block < a₂.size := by
  intro x hx
  have hsize := h₂.size
  rcases List.mem_append.1 hx with hx | hx
  · have := h₁.within x hx
    omega
  · exact h₂.within x hx

/-- What is told of two parts one after the other is told of all exits. -/
theorem Lays.both_state (h₁ : Lays go y a exits₁ a₁ told₁) (h₂ : Lays go z a₁ exits₂ a₂ told₂)
    (s : Emission) :
    (told₂ (told₁ s).2).2 = (tellEach go ((exits₁ ++ exits₂).map Exit.node) s).2 := by
  rw [List.map_append, tellEach_append, h₂.state, h₁.state]

/-- A line ahead of what is laid out. -/
theorem Lays.line (hb : b < a.size) {l : Statement} (h : Lays go b (a.line b l) exits a₁ told) :
    Lays go b a exits a₁ fun s => (.line l :: (told s).1, (told s).2) where
  size := Nat.le_trans (Nat.le_of_eq (Arena.size_line a b l).symm) h.size
  closed := h.closed
  within := h.within
  apart x hx := by
    rw [← Arena.size_line a b l]
    exact h.apart x hx
  state := h.state
  text s tail hquiet id hid := by
    rw [h.text s tail (by rw [Arena.size_line]; exact hquiet) id
        (by rw [Arena.size_line]; exact hid),
      Arena.passages_line hb, ahead_ahead]
    rfl

/-- What is laid out in a new block, and what is laid out after it. -/
theorem Lays.opened {wrap : List (Passage Statement) → List (Passage Statement)} (hb : b < a.size)
    (hopen : Opens a a₀ b y wrap) (h₁ : Lays go y a₀ exits₁ a₁ told₁)
    (h₂ : Lays go b a₁ exits₂ a₂ told₂) :
    Lays go b a (exits₁ ++ exits₂) a₂ fun s =>
      (wrap (told₁ s).1 ++ (told₂ (told₁ s).2).1, (told₂ (told₁ s).2).2) := by
  have hfresh := hopen.fresh
  have hwithin := hopen.within
  have hsize₁ := h₁.size
  have hsize₂ := h₂.size
  constructor
  case size => omega
  case closed => exact h₂.closed
  case within => exact h₁.both_within h₂
  case apart =>
    intro x hx
    rcases h₁.both_apart h₂ x hx with h | h | h
    · exact Or.inr (by omega)
    · exact Or.inl h
    · exact Or.inr (by omega)
  case state => exact h₁.both_state h₂
  case text =>
    intro s tail hquiet id hid
    rw [h₁.both h₂ (by omega) (by omega) s (hquiet.mono (by omega)) (by omega),
      hopen.text hquiet _ _ id hid]

/-- A line behind what is laid out, where no exit is left at the end of the
    block. -/
theorem Lays.thenLine (hb : b < a.size) (h : Lays go b a exits a₁ told) (l : Statement)
    (hexits : ∀ x ∈ exits, x.block ≠ b) :
    Lays go b a exits (a₁.line b l) fun s => ((told s).1 ++ [.line l], (told s).2) where
  size := by
    rw [Arena.size_line]
    exact h.size
  closed := Arena.Closed.line h.closed b l
  within x hx := by
    rw [Arena.size_line]
    exact h.within x hx
  apart := h.apart
  state := h.state
  text s tail hquiet id hid := by
    have hsize := h.size
    have hmem : b ∉ (fillings go exits s).map Prod.fst := by
      rw [map_fst_fillings]
      intro hmem
      obtain ⟨x, hx, heq⟩ := List.mem_map.1 hmem
      exact hexits x hx heq
    rw [Arena.passages_line (by omega), ← fill_ahead hmem, h.text s _ (hquiet.ahead hb _) id hid,
      ahead_ahead]

end Laying

/-! ## Going on -/

section Visiting

variable (go : String → Emission → Told)

/-- **Connections are laid out in turn**, each in a block of its own. By induction
    on the connections. -/
theorem lays_spread (conns : List Connection) {b : Nat} {e : Emission} (closed : e.blocks.Closed)
    (hb : b < e.blocks.size) :
    Lays go b e.blocks (spread b conns e).1 (spread b conns e).2.blocks
      (inTurn go (targets conns)) := by
  induction conns generalizing e with
  | nil => exact Lays.none closed
  | cons c rest ih =>
      have hopen := opens_reserve closed hb .inline
      exact Lays.opened hb hopen (Lays.one hopen.closed hopen.within c.target.node)
        (ih (e := (e.reserve .inline b).2) hopen.closed (hopen.lt hb))

/-- A single connection goes on in the same block; the text is the same. -/
theorem lays_goOn (conns : List Connection) {b : Nat} {e : Emission} (closed : e.blocks.Closed)
    (hb : b < e.blocks.size) :
    Lays go b e.blocks (goOn b conns e).1 (goOn b conns e).2.blocks
      (inTurn go (targets conns)) := by
  rw [goOn.eq_def]
  split
  · next c =>
    have h : inTurn go (targets [c]) = go c.target.node := by
      funext s
      exact Prod.ext (List.append_nil _) rfl
    rw [h]
    exact Lays.one closed hb c.target.node
  · exact lays_spread go _ closed hb

/-- To go on by an output is to go on by the connections that leave it. -/
theorem goOnBy_eq (ctx : Context) (n : Node) (output : Option Param) (b : Nat) (e : Emission) :
    goOnBy ctx n output b e = goOn b (ctx.leavingBy n output.toList) e := by
  cases output with
  | none => rfl
  | some p =>
      show goOn b (ctx.index.outgoing ⟨n.id, p.id⟩) e
        = goOn b (ctx.index.outgoing ⟨n.id, p.id⟩ ++ []) e
      rw [List.append_nil]

/-- Blocks for what follows leave no mark but themselves. -/
theorem detached_spread (conns : List Connection) (b : Nat) (e : Emission) :
    (spread b conns e).2.detached = e.detached := by
  induction conns generalizing e with
  | nil => rfl
  | cons c rest ih => exact ih (e.reserve .inline b).2

@[simp] theorem detached_goOn (conns : List Connection) (b : Nat) (e : Emission) :
    (goOn b conns e).2.detached = e.detached := by
  rw [goOn.eq_def]
  split
  · rfl
  · exact detached_spread _ b e

/-! ## Tasks -/

/-- The names of tasks do not depend on what stands between them. -/
theorem startTasks_names (stem : String) (b k : Nat) (conns : List Connection) (e : Emission) :
    (startTasks stem b k conns e).1 = (taskNames stem k conns e.detached).1
      ∧ (startTasks stem b k conns e).2.2.detached = (taskNames stem k conns e.detached).2 := by
  induction conns generalizing k e with
  | nil => exact ⟨rfl, rfl⟩
  | cons c rest ih =>
      obtain ⟨hnames, hstate⟩ := ih (k + 1)
        ((((e.newLocal (stem ++ Nat.repr k)).2.emit b
          (.openTask (e.newLocal (stem ++ Nat.repr k)).1)).reserve .nested b).2.emit b .closeTask)
      exact ⟨congrArg ((e.newLocal (stem ++ Nat.repr k)).1 :: ·) hnames, hstate⟩

/-- Tasks go on in new blocks. -/
theorem startTasks_apart (stem : String) (b k : Nat) (conns : List Connection) (e : Emission) :
    ∀ x ∈ (startTasks stem b k conns e).2.1, e.blocks.size ≤ x.block := by
  induction conns generalizing k e with
  | nil => nofun
  | cons c rest ih =>
      intro x hx
      have hsize : ∀ s s' : Statement,
          (((e.blocks.line b s).reserve .nested b).2.line b s').size = e.blocks.size + 1 := by
        intro s s'
        rw [Arena.size_line, Arena.size_reserve, Arena.size_line]
      rcases List.mem_cons.1 hx with rfl | hx
      · show e.blocks.size ≤ ((e.blocks.line b _).reserve .nested b).1
        exact Nat.le_of_eq (by rw [Arena.reserve_fst, Arena.size_line])
      · have hrest := ih _ _ x hx
        have hstep := hsize (.openTask (e.newLocal (stem ++ Nat.repr k)).1) .closeTask
        exact Nat.le_trans (Nat.le_succ _) (Nat.le_trans (Nat.le_of_eq hstep.symm) hrest)

/-- **Tasks are laid out one after the other.** By induction on the connections:
    each is a line, a nested block and a line. -/
theorem lays_startTasks (stem : String) (k : Nat) (conns : List Connection) {b : Nat}
    {e : Emission} (closed : e.blocks.Closed) (hb : b < e.blocks.size) :
    Lays go b e.blocks (startTasks stem b k conns e).2.1 (startTasks stem b k conns e).2.2.blocks
      (tellTasks go (startTasks stem b k conns e).1 conns) := by
  induction conns generalizing k e with
  | nil => exact Lays.none closed
  | cons c rest ih =>
      have hopen := opens_bracket closed hb (.openTask (e.newLocal (stem ++ Nat.repr k)).1)
        .closeTask (y := ((e.blocks.line b
          (.openTask (e.newLocal (stem ++ Nat.repr k)).1)).reserve .nested b).1) (by simp)
      have hrest := ih (k + 1) (e := (((e.newLocal (stem ++ Nat.repr k)).2.emit b
          (.openTask (e.newLocal (stem ++ Nat.repr k)).1)).reserve .nested b).2.emit b .closeTask)
        hopen.closed (hopen.lt hb)
      exact Lays.opened hb hopen (Lays.one hopen.closed hopen.within c.target.node) hrest

/-- **Visits lay out what the descent tells.**  A visit leaves blocks and
    exits in which the text that is told stands, once the exits are
    filled. -/
def LaysOut (b : Nat) (e : Emission) (v : Visited) (t : Told) : Prop :=
  ∃ told, Lays go b e.blocks v.1 v.2.blocks told ∧ told v.2.detached = t

variable {go}

/-- Tasks are followed by the line that waits for them. -/
theorem laysOut_visitParallel (ctx : Context) (n : Node) (d : Definition) {b : Nat}
    {e : Emission} (closed : e.blocks.Closed) (hb : b < e.blocks.size) :
    LaysOut go b e (visitParallel ctx n d b e) (tellParallel ctx go n d e.detached) := by
  have hsame : newBranches ctx n d e.detached = newBranches ctx n d e := rfl
  rw [visitParallel, tellParallel, hsame]
  cases newBranches ctx n d e with
  | nil => exact ⟨_, Lays.none closed, rfl⟩
  | cons c rest =>
      have hlays := lays_startTasks go ("task_" ++ n.numericSuffix?.getD "0" ++ "_") 1
        (c :: rest) (e := e.setAsync) closed hb
      have hapart := startTasks_apart ("task_" ++ n.numericSuffix?.getD "0" ++ "_") b 1
        (c :: rest) e.setAsync
      obtain ⟨hnames, hstate⟩ := startTasks_names ("task_" ++ n.numericSuffix?.getD "0" ++ "_") b 1
        (c :: rest) e.setAsync
      refine ⟨_, hlays.thenLine hb _ (fun x hx heq => ?_), ?_⟩
      · have hge : e.blocks.size ≤ x.block := hapart x hx
        omega
      · have hdetached : e.setAsync.detached = e.detached.setAsync := rfl
        rw [hdetached] at hnames hstate
        dsimp only
        rw [← hnames, ← hstate]
        rfl

/-! ## Branches, loops and cases -/

/-- Two blocks behind a line, the second as what happens otherwise. -/
theorem Lays.branched {a a₁ a₂ : Arena Statement} {b yes no : Nat} {exits₁ exits₂ : List Exit}
    {told₁ told₂ : Emission → Told} (closed : a.Closed) (hb : b < a.size) (first last : Statement)
    (hyes : yes = a.size) (hno : no = a.size + 1)
    (h₁ : Lays go yes ((((a.line b first).reserve .nested b).2.reserve .otherwise b).2.line b
      last) exits₁ a₁ told₁)
    (h₂ : Lays go no a₁ exits₂ a₂ told₂) :
    Lays go b a (exits₁ ++ exits₂) a₂ fun s =>
      ([.line first, .deeper (told₁ s).1, .otherwise (told₂ (told₁ s).2).1, .line last],
        (told₂ (told₁ s).2).2) := by
  subst hyes hno
  have hsize : ((a.line b first).reserve .nested b).2.size = a.size + 1 := by simp
  have hopen := (opens_reserve (closed.line b first) (by simpa using hb) .nested).afterLine hb
  have hopen' := (opens_reserve hopen.closed (by omega) .otherwise).thenLine (l := last)
    (Nat.lt_trans hb (by omega))
  rw [Arena.size_line] at hopen
  rw [hsize] at hopen'
  have hwithin := hopen'.within
  have hsize₁ := h₁.size
  have hsize₂ := h₂.size
  constructor
  case size => omega
  case closed => exact h₂.closed
  case within => exact h₁.both_within h₂
  case apart =>
    intro x hx
    rcases h₁.both_apart h₂ x hx with h | h | h
    · exact Or.inr (by omega)
    · exact Or.inr (by omega)
    · exact Or.inr (by omega)
  case state => exact h₁.both_state h₂
  case text =>
    intro s tail hquiet id hid
    rw [h₁.both h₂ (by omega) (by omega) s (hquiet.mono (by omega)) (by omega),
      ahead_comm _ (by omega)]
    -- the text at the end of `b` is empty until the second block is put there
    have hquiet' : Tail.QuietFrom (ahead tail a.size (told₁ s).1)
        ((a.line b first).reserve .nested b).2.size :=
      (hquiet.mono (by omega)).ahead (by omega) _
    have htext := hopen'.text hquiet' [] (told₂ (told₁ s).2).1 id (by omega)
    rw [Arena.ahead_nil, List.append_nil] at htext
    rw [htext, ahead_comm _ (by omega), hopen.text hquiet _ _ id hid]
    rfl

/-- **A branch lays out its two sides**, the second one after an `else` if it has
    any text. -/
theorem laysOut_visitBranch (ctx : Context) (n : Node) (d : Definition) (condition : Operand)
    {b : Nat} {e : Emission} (closed : e.blocks.Closed) (hb : b < e.blocks.size) :
    LaysOut go b e (visitBranch ctx n d condition b e)
      (tellBranch ctx go n d condition e.detached) := by
  have hclosed := (((closed.line b (.openIf condition)).reserve .nested b).reserve .otherwise
    b).line b .close
  have hfirst := lays_goOn go (ctx.leavingBy n d.execOutputs[0]?.toList)
    (b := ((e.emit b (.openIf condition)).reserve .nested b).1)
    (e := (((e.emit b (.openIf condition)).reserve .nested b).2.reserve .otherwise b).2.emit b
      .close) hclosed (by
        simp only [Emission.blocks_emit, Emission.blocks_reserve, Emission.fst_reserve,
          Arena.size_line, Arena.size_reserve]
        omega)
  have hsecond := lays_goOn go (ctx.leavingBy n d.execOutputs[1]?.toList)
    (b := (((e.emit b (.openIf condition)).reserve .nested b).2.reserve .otherwise b).1)
    hfirst.closed (Nat.lt_of_lt_of_le (by simp) hfirst.size)
  have h := Lays.branched closed hb (.openIf condition) .close (by simp) (by simp) hfirst hsecond
  rw [visitBranch, tellBranch]
  simp only [goOnBy_eq]
  refine ⟨_, h, ?_⟩
  simp only [detached_goOn, Emission.detached_emit, Emission.detached_reserve,
    Emission.mention_close]

/-- **A loop lays out its body** between its lines, and what follows behind them. -/
theorem laysOut_visitLoop (ctx : Context) (n : Node) (d : Definition) (count : Operand) {b : Nat}
    {e : Emission} (closed : e.blocks.Closed) (hb : b < e.blocks.size) :
    LaysOut go b e (visitLoop ctx n d count b e) (tellLoop ctx go n d count e.detached) := by
  have hdeclare : e.detached.declare (loopIndex ctx n) "number"
      = (e.declare (loopIndex ctx n) "number").detached := Emission.declare_withBlocks e ..
  rw [LaysOut, visitLoop, tellLoop, hdeclare]
  rw [← e.blocks_declare (loopIndex ctx n) "number"] at closed hb ⊢
  generalize e.declare (loopIndex ctx n) "number" = e at closed hb ⊢
  have hopen := opens_bracket closed hb (.openFor (loopIndex ctx n) count) .close
    (y := ((e.emit b (.openFor (loopIndex ctx n) count)).reserve .nested b).1) (by simp)
  have hfirst := lays_goOn go (ctx.leavingBy n d.execOutputs[0]?.toList)
    (e := ((e.emit b (.openFor (loopIndex ctx n) count)).reserve .nested b).2.emit b .close)
    hopen.closed hopen.within
  have hsecond := lays_goOn go (ctx.leavingBy n d.execOutputs[1]?.toList) (b := b) hfirst.closed
    (Nat.lt_of_lt_of_le (hopen.lt hb) hfirst.size)
  have h := Lays.opened hb hopen hfirst hsecond
  simp only [goOnBy_eq]
  refine ⟨_, h, ?_⟩
  simp only [detached_goOn, Emission.detached_emit, Emission.detached_reserve,
    Emission.mention_close]
  rfl

/-- Cases leave no mark but their lines. -/
theorem detached_writeCases (ctx : Context) (n : Node) (cases : Nat) (outputs : List Param)
    (e : Emission) : (writeCases ctx n cases outputs e).2.detached = e.detached := by
  induction outputs generalizing e with
  | nil => rfl
  | cons p rest ih =>
      rw [writeCases]
      cases ctx.index.outgoing ⟨n.id, p.id⟩ with
      | nil => exact ih e
      | cons c more =>
          dsimp only
          rw [ih, detached_goOn]
          simp

/-- Cases are laid out one after the other. By induction on the outputs; one without
    a connection has none. -/
theorem lays_writeCases (ctx : Context) (n : Node) (outputs : List Param) {cases : Nat}
    {e : Emission} (closed : e.blocks.Closed) (hb : cases < e.blocks.size) :
    Lays go cases e.blocks (writeCases ctx n cases outputs e).1
      (writeCases ctx n cases outputs e).2.blocks (tellCases ctx go n outputs) := by
  induction outputs generalizing e with
  | nil => exact Lays.none closed
  | cons p rest ih =>
      cases hout : ctx.index.outgoing ⟨n.id, p.id⟩ with
      | nil =>
          simp only [writeCases, hout]
          exact (ih closed hb).congr fun s => by rw [tellCases, hout]
      | cons c more =>
          have hopen := opens_case closed hb (.openCase (.ofOutput p.id)) .leaveCase .close
            (c := ((e.emit cases (.openCase (.ofOutput p.id))).reserve .nested cases).1)
            (y := (((e.emit cases (.openCase (.ofOutput p.id))).reserve .nested cases).2.reserve
              .inline ((e.emit cases (.openCase (.ofOutput p.id))).reserve .nested cases).1).1)
            (by simp) (by simp)
          have hfirst := lays_goOn go (c :: more) hopen.closed hopen.within
            (e := ((((e.emit cases (.openCase (.ofOutput p.id))).reserve .nested cases).2.reserve
              .inline ((e.emit cases (.openCase (.ofOutput p.id))).reserve .nested cases).1).2.emit
              ((e.emit cases (.openCase (.ofOutput p.id))).reserve .nested cases).1
              .leaveCase).emit cases .close)
          have hothers := ih hfirst.closed (Nat.lt_of_lt_of_le (hopen.lt hb) hfirst.size)
          simp only [writeCases, hout]
          exact (Lays.opened hb hopen hfirst hothers).congr fun s => by
            simp only [tellCases, hout]
            rfl

/-- **A switch lays out its cases** between its lines. -/
theorem laysOut_visitSwitch (ctx : Context) (n : Node) (d : Definition) (value : Operand) {b : Nat}
    {e : Emission} (closed : e.blocks.Closed) (hb : b < e.blocks.size) :
    LaysOut go b e (visitSwitch ctx n d value b e) (tellSwitch ctx go n d value e.detached) := by
  have hopen := opens_bracket closed hb (.openSwitch value) .close
    (y := ((e.emit b (.openSwitch value)).reserve .nested b).1) (by simp)
  have hcases := @lays_writeCases go ctx n d.execOutputs _
    (((e.emit b (.openSwitch value)).reserve .nested b).2.emit b .close)
    hopen.closed hopen.within
  have h := Lays.opened hb hopen hcases (Lays.none hcases.closed)
  rw [List.append_nil] at h
  refine ⟨_, h, ?_⟩
  rw [visitSwitch, tellSwitch]
  simp only [detached_writeCases, Emission.detached_emit, Emission.detached_reserve,
    Emission.mention_close]
  rfl

end Visiting

end Blueprints
