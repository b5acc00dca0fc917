import Blueprints.Graph.Format
import Blueprints.Proofs.Json.Records

/-! # Graphs are read back

    For each part of a blueprint: it is read back from what is written, if its
    values fit the levels of brackets that are left at its place and its
    floating point numbers are read back (`reads_param` and so on); and what
    was read fits them (`Param.reader_ensures` and so on). -/

namespace Blueprints

open Json (Fits)
open Json.Reader

/-! ## Fields -/

section Fields

variable {α β : Type} {k : Nat} {layout : List (RecordField α)} {r r' : α}
  {js : List (String × Json)}

/-- An optional field: it is left out if there is nothing to write. -/
theorem written_optional {name : String} (value : Nat → Json.Reader β) {encode : β → Json}
    {set : Option β → α → α} {b? : Option β} {v? : Option Json} (hv : v? = b?.map encode)
    (reads : ∀ b, b? = some b → Reads (value k) (encode b) b ∧ encode b ≠ .null)
    (hnone : set none r = r) (more : Written k layout (set b? r) js r') :
    Written k (.optional name (fun k => .option (value k)) set :: layout) r
      (Json.optionalField name v? ++ js) r' := by
  subst hv
  cases b? with
  | none => exact .skip rfl (hnone ▸ more)
  | some b =>
      obtain ⟨hreads, hnull⟩ := reads b rfl
      exact .of (hreads.option hnull) more

/-- A text that may be missing is written, or left out and read as missing. -/
theorem written_optionalText {name : String} {set : Option String → α → α} {s? : Option String}
    (hnone : set none r = r) (more : Written k layout (set s? r) js r') :
    Written k (.optional name (fun _ => .option .text) set :: layout) r
      (Json.optionalField name (s?.map .string) ++ js) r' :=
  written_optional (fun _ => .text) rfl (fun s _ => ⟨reads_text s, nofun⟩) hnone more

theorem reads_list {item : Nat → Json.Reader β} {encode : β → Json} {bs : List β}
    (h : ∀ b ∈ bs, Reads (item k) (encode b) b) :
    Reads (Json.Reader.list item (k + 1)) (.array (bs.map encode)) bs :=
  .list (List.forall₂_map_left_iff.2 (List.forall₂_same.2 h))

/-- A variant is read from its name. -/
theorem reads_variant {known : List (String × β)} {name : String} {b : β}
    (h : known.lookup name = some b) (levels : Nat) :
    Reads (variant known levels) (.string name) b where
  begins := Json.begins_string name
  reads depth ws rest blank ends := by
    rw [variant, (Json.begins_string name).skipSpace depth blank, Json.prettyChars_string]
    dsimp only
    rw [if_pos (by decide), Json.stringRest_chars]
    dsimp only
    rw [variantNamed, h]
    rfl

end Fields

/-! ## Params -/

namespace Param

/-- The default of a param fits. -/
def Fits (k : Nat) (p : Param) : Prop := ∀ v, p.default? = some v → Json.Fits k v ∧ v ≠ .null

/-- The floating point numbers in a param. -/
def floats (p : Param) : List Double := p.default?.toList.flatMap Json.floats

theorem lookup_names (kind : ParamKind) : ParamKind.names.lookup kind.name = some kind := by
  cases kind with
  | _ => rfl

/-- A param that fits is read back. -/
theorem reads {k : Nat} {p : Param} (fits : p.Fits (k + 1))
    (hfloats : ∀ x ∈ p.floats, x.ReadsBack) : Reads (reader (k + 2)) p.toJson p := by
  obtain ⟨id, name, kind, default?, description, options, hidden⟩ := p
  have hdefault : ∀ v, default? = some v → Reads (value (k + 1)) v v ∧ v ≠ .null := by
    rintro v rfl
    obtain ⟨hfits, hnull⟩ := fits v rfl
    refine ⟨value_reads hfits fun x hx => hfloats x ?_, hnull⟩
    exact List.mem_flatMap.2 ⟨v, List.mem_cons_self .., hx⟩
  have hhidden : Reads (fun cs => (boolean cs).map fun (v, rest) =>
      ((fun p : Param => { p with hidden := v }), rest)) (.bool true)
      fun p : Param => { p with hidden := true } :=
    (reads_boolean true).map fun v (p : Param) => { p with hidden := v }
  rw [toJson]
  simp only [List.append_assoc]
  refine reads_record (by decide) ?_
  refine .of (reads_text id) (.of (reads_text name) (.of (reads_variant (lookup_names kind) _) ?_))
  refine written_optional value Option.map_id'.symm hdefault rfl ?_
  refine written_optionalText rfl ?_
  refine written_optional (Json.Reader.list fun _ => .text) rfl
    (fun os _ => ⟨reads_list fun s _ => reads_text s, nofun⟩) rfl ?_
  cases hidden with
  | true => exact .field hhidden (.nil _)
  | false => exact .skip rfl (.nil _)

/-- Every param that is read fits. -/
theorem reader_ensures (k : Nat) : Ensures (reader (k + 1)) (Fits k) := by
  refine record_ensures ?_ fun v hv => nomatch hv
  have hdefault : Ensures (option (value k)) fun v? => ∀ v, v? = some v →
      Json.Fits k v ∧ v ≠ .null := by
    intro cs v? rest h v hv
    subst hv
    exact ⟨option_ensures (value_ensures k) h v rfl, fun hnull =>
      option_value_ne_null k h (congrArg some hnull)⟩
  have hhidden : (RecordField.optional "noPort" (fun _ => .boolean)
      fun v (p : Param) => { p with hidden := v }).Keeps (Fits k) k := .other fun _ _ h => h
  simp only [layout, List.forall_mem_cons]
  exact ⟨.other fun _ _ h => h, .other fun _ _ h => h, .other fun _ _ h => h,
    .of hdefault fun _ _ h _ => h, .other fun _ _ h => h, .other fun _ _ h => h, ⟨hhidden.keeps⟩,
    fun _ h => absurd h List.not_mem_nil⟩

end Param

/-! ## Definitions -/

namespace Definition

/-- The params of a definition fit. -/
def Fits (k : Nat) (d : Definition) : Prop :=
  (∀ p ∈ d.inputs, p.Fits k) ∧ ∀ p ∈ d.outputs, p.Fits k

/-- The floating point numbers in a definition. -/
def floats (d : Definition) : List Double := (d.inputs ++ d.outputs).flatMap Param.floats

/-- A definition that fits is read back. -/
theorem reads {k : Nat} {d : Definition} (fits : d.Fits (k + 1))
    (hfloats : ∀ x ∈ d.floats, x.ReadsBack) : Reads (reader (k + 4)) d.toJson d := by
  obtain ⟨id, name, category, description, inputs, outputs, color⟩ := d
  have hinputs : ∀ p ∈ inputs, Reads (Param.reader (k + 2)) p.toJson p := fun p hp =>
    Param.reads (fits.1 p hp) fun x hx =>
      hfloats x (List.mem_flatMap.2 ⟨p, List.mem_append_left _ hp, hx⟩)
  have houtputs : ∀ p ∈ outputs, Reads (Param.reader (k + 2)) p.toJson p := fun p hp =>
    Param.reads (fits.2 p hp) fun x hx =>
      hfloats x (List.mem_flatMap.2 ⟨p, List.mem_append_right _ hp, hx⟩)
  rw [toJson]
  simp only [List.append_assoc]
  refine reads_record (by decide) ?_
  refine .of (reads_text id) (.of (reads_text name) (.of (reads_text category) ?_))
  refine written_optionalText rfl ?_
  refine .of (reads_list hinputs) (.of (reads_list houtputs) ?_)
  rw [← List.append_nil (Json.optionalField "color" _)]
  exact written_optionalText rfl (.nil _)

/-- Every definition that is read fits. -/
theorem reader_ensures (k : Nat) : Ensures (reader (k + 3)) (Fits k) := by
  refine record_ensures ?_ ⟨fun _ h => absurd h List.not_mem_nil, fun _ h => absurd h List.not_mem_nil⟩
  have hparams : Ensures (Json.Reader.list Param.reader (k + 2)) fun ps => ∀ p ∈ ps, p.Fits k :=
    list_ensures (Param.reader_ensures k)
  simp only [layout, List.forall_mem_cons]
  exact ⟨.other fun _ _ h => h, .other fun _ _ h => h, .other fun _ _ h => h,
    .other fun _ _ h => h, .of hparams fun _ _ h hr => ⟨h, hr.2⟩,
    .of hparams fun _ _ h hr => ⟨hr.1, h⟩, .other fun _ _ h => h,
    fun _ h => absurd h List.not_mem_nil⟩

end Definition

/-! ## Nodes -/

/-- A floating point number is read back in its own place too. -/
theorem reads_double {x : Double} (h : x.ReadsBack) : Reads double (.float x) x where
  begins := Json.begins_signed h fun depth => Json.prettyChars_float depth x
  reads depth ws rest blank ends := by
    rw [Json.prettyChars_float, double, numberAs_signed h .double blank ends]

namespace Position

/-- The floating point numbers of a position. -/
def floats (p : Position) : List Double := [p.x, p.y]

/-- A position is read back, if its decimals are. -/
theorem reads {k : Nat} {p : Position} (hfloats : ∀ x ∈ p.floats, x.ReadsBack) :
    Reads (reader (k + 1)) p.toJson p := by
  have hx : p.x.ReadsBack := hfloats p.x (List.mem_cons_self ..)
  have hy : p.y.ReadsBack := hfloats p.y (List.mem_cons_of_mem _ (List.mem_cons_self ..))
  exact reads_record (by decide)
    (.of (reads_double hx) (.of (reads_double hy) (.nil _)))

end Position

namespace Node

/-- The literals and previews of a node fit. -/
def Fits (k : Nat) (n : Node) : Prop :=
  Json.Fits k (.object n.inputs) ∧ Json.Fits k (.object n.outputs)

/-- The floating point numbers in a node. -/
def floats (n : Node) : List Double :=
  n.position.floats ++ (Json.object n.inputs).floats ++ (Json.object n.outputs).floats

/-- A node that fits is read back. -/
theorem reads {k : Nat} {n : Node} (fits : n.Fits (k + 1))
    (hfloats : ∀ x ∈ n.floats, x.ReadsBack) : Reads (reader (k + 2)) n.toJson n := by
  have hposition : Reads (Position.reader (k + 1)) n.position.toJson n.position :=
    Position.reads fun x hx => hfloats x (List.mem_append_left _ (List.mem_append_left _ hx))
  have hinputs : Reads (table (k + 1)) (.object n.inputs) n.inputs :=
    table_reads fits.1 fun x hx =>
      hfloats x (List.mem_append_left _ (List.mem_append_right _ hx))
  have houtputs : Reads (table (k + 1)) (.object n.outputs) n.outputs :=
    table_reads fits.2 fun x hx => hfloats x (List.mem_append_right _ hx)
  exact reads_record (by decide) (.of (reads_text n.id) (.of (reads_text n.definitionId)
    (.of (reads_text n.name) (.of hposition (.of hinputs (.of houtputs (.nil _)))))))

/-- Every node that is read fits. -/
theorem reader_ensures (k : Nat) : Ensures (reader (k + 2)) (Fits (k + 1)) := by
  refine record_ensures ?_ ⟨Json.fits_nil k, Json.fits_nil k⟩
  simp only [layout, List.forall_mem_cons]
  exact ⟨.other fun _ _ h => h, .other fun _ _ h => h, .other fun _ _ h => h,
    .other fun _ _ h => h, .of (table_ensures (k + 1)) fun _ _ h hr => ⟨h, hr.2⟩,
    .of (table_ensures (k + 1)) fun _ _ h hr => ⟨hr.1, h⟩,
    fun _ h => absurd h List.not_mem_nil⟩

end Node

/-! ## Connections -/

/-- Every connection is read back: it is made of texts. -/
theorem Connection.reads (k : Nat) (c : Connection) : Reads (reader (k + 1)) c.toJson c :=
  reads_record (by decide) (.of (reads_text c.id) (.of (reads_text c.source.node)
    (.of (reads_text c.source.param) (.of (reads_text c.target.node)
      (.of (reads_text c.target.param) (.nil _))))))

/-! ## Blueprints -/

namespace Blueprint

/-- The nodes and variables of a blueprint fit. -/
def Fits (k : Nat) (b : Blueprint) : Prop :=
  (∀ n ∈ b.nodes, n.Fits (k + 1)) ∧ Json.Fits (k + 3) (.object b.variableValues)

/-- The floating point numbers in a blueprint. -/
def floats (b : Blueprint) : List Double :=
  b.nodes.flatMap Node.floats ++ (Json.object b.variableValues).floats

theorem lookup_names (kind : BlueprintKind) : BlueprintKind.names.lookup kind.name = some kind := by
  cases kind with
  | _ => rfl

/-- **A blueprint that fits is read back.** -/
theorem reads {k : Nat} {b : Blueprint} (fits : b.Fits k)
    (hfloats : ∀ x ∈ b.floats, x.ReadsBack) : Reads (reader (k + 4)) b.toJson b := by
  obtain ⟨id, name, kind, nodes, connections, variableValues, description⟩ := b
  have hnodes : ∀ n ∈ nodes, Reads (Node.reader (k + 2)) n.toJson n := fun n hn =>
    Node.reads (fits.1 n hn) fun x hx =>
      hfloats x (List.mem_append_left _ (List.mem_flatMap.2 ⟨n, hn, hx⟩))
  have hvariables : Reads (table (k + 3)) (.object variableValues) variableValues :=
    table_reads fits.2 fun x hx => hfloats x (List.mem_append_right _ hx)
  rw [toJson]
  refine reads_record (by decide) ?_
  refine .of (reads_text id) (.of (reads_text name) (.of (reads_variant (lookup_names kind) _) ?_))
  refine .of (reads_list hnodes) (.of (reads_list fun c _ => Connection.reads (k + 1) c) ?_)
  refine .of hvariables ?_
  rw [← List.append_nil (Json.optionalField "description" _)]
  exact written_optionalText rfl (.nil _)

/-- **Every blueprint that is read fits.** -/
theorem reader_ensures (k : Nat) : Ensures (reader (k + 4)) (Fits k) := by
  refine record_ensures ?_ ⟨fun _ h => absurd h List.not_mem_nil, Json.fits_nil (k + 2)⟩
  have hnodes : Ensures (Json.Reader.list Node.reader (k + 3)) fun ns =>
      ∀ n ∈ ns, n.Fits (k + 1) := list_ensures (Node.reader_ensures k)
  simp only [layout, List.forall_mem_cons]
  exact ⟨.other fun _ _ h => h, .other fun _ _ h => h, .other fun _ _ h => h,
    .of hnodes fun _ _ h hr => ⟨h, hr.2⟩, .other fun _ _ h => h,
    .of (table_ensures (k + 3)) fun _ _ h hr => ⟨hr.1, h⟩, .other fun _ _ h => h,
    fun _ h => absurd h List.not_mem_nil⟩

end Blueprint

end Blueprints
