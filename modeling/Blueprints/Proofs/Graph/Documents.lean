import Blueprints.Document
import Blueprints.Proofs.Graph.Format

/-! # Documents survive saving and loading

    A document that was loaded is written and read back as the same document,
    whatever text it was loaded from.  Of decimals and time stamps it is
    assumed that those of the document are read back.  The text that is
    written is therefore its own: to load it and save it again changes
    nothing. -/

namespace Blueprints

open Json.Reader

/-! ## Metadata -/

/-- The text that is written for a time stamp is read as that time stamp. -/
def Time.Timestamp.ReadsBack (t : Time.Timestamp) : Prop := Time.Timestamp.parse t.text = .ok t

/-- A time stamp is written as text and read as text. -/
theorem Time.Timestamp.reads {t : Time.Timestamp} (h : t.ReadsBack) :
    Reads Time.Timestamp.reader (.string t.text) t where
  begins := Json.begins_string t.text
  reads depth ws rest blank ends := by
    rw [reader, (reads_textAs .timestamp t.text).reads depth blank ends]
    dsimp only
    rw [show parse t.text = .ok t from h]

/-- The time stamps of metadata. -/
def Metadata.timestamps (m : Metadata) : List Time.Timestamp := [m.createdAt, m.lastModified]

/-- Metadata are read back, if their time stamps are. -/
theorem Metadata.reads {k : Nat} {m : Metadata} (h : ∀ t ∈ m.timestamps, t.ReadsBack) :
    Reads (reader (k + 1)) m.toJson m := by
  obtain ⟨createdAt, lastModified, author, description⟩ := m
  have hcreated : createdAt.ReadsBack := h createdAt (List.mem_cons_self ..)
  have hmodified : lastModified.ReadsBack :=
    h lastModified (List.mem_cons_of_mem _ (List.mem_cons_self ..))
  rw [toJson]
  simp only [List.append_assoc]
  refine reads_record (by decide) ?_
  refine .of (Time.Timestamp.reads hcreated) (.of (Time.Timestamp.reads hmodified) ?_)
  refine written_optionalText rfl ?_
  rw [← List.append_nil (Json.optionalField "description" _)]
  exact written_optionalText rfl (.nil _)

/-! ## Documents -/

namespace Document

/-- The blueprint and the definitions of a document fit. -/
def Fits (k : Nat) (d : Document) : Prop :=
  d.blueprint.Fits (k + 1) ∧ ∀ definition ∈ d.definitions, definition.Fits (k + 1)

/-- The floating point numbers in a document. -/
def floats (d : Document) : List Double :=
  d.blueprint.floats ++ d.definitions.flatMap Definition.floats

/-- **A document that fits is read back**, if its decimals and time stamps are. -/
theorem reads {k : Nat} {d : Document} (fits : d.Fits k) (hfloats : ∀ x ∈ d.floats, x.ReadsBack)
    (htimes : ∀ t ∈ d.metadata.timestamps, t.ReadsBack) : Reads (reader (k + 6)) d.toJson d := by
  have hblueprint : Reads (Blueprint.reader (k + 5)) d.blueprint.toJson d.blueprint :=
    Blueprint.reads fits.1 fun x hx => hfloats x (List.mem_append_left _ hx)
  have hdefinitions : ∀ definition ∈ d.definitions,
      Reads (Definition.reader (k + 4)) definition.toJson definition := fun definition hmem =>
    Definition.reads (fits.2 definition hmem) fun x hx =>
      hfloats x (List.mem_append_right _ (List.mem_flatMap.2 ⟨definition, hmem, hx⟩))
  have hmetadata : Reads (Metadata.reader (k + 5)) d.metadata.toJson d.metadata :=
    Metadata.reads htimes
  exact reads_record (by decide) (.of (reads_text d.version) (.of (reads_text d.name)
    (.of hblueprint (.of (reads_list hdefinitions) (.of hmetadata (.nil _))))))

/-- **Every document that is read fits.** -/
theorem reader_ensures (k : Nat) : Ensures (reader (k + 6)) (Fits k) := by
  refine record_ensures ?_ ⟨⟨fun _ h => absurd h List.not_mem_nil, Json.fits_nil (k + 3)⟩,
    fun _ h => absurd h List.not_mem_nil⟩
  have hdefinitions : Ensures (Json.Reader.list Definition.reader (k + 5)) fun ds =>
      ∀ d ∈ ds, d.Fits (k + 1) := list_ensures (Definition.reader_ensures (k + 1))
  simp only [layout, List.forall_mem_cons]
  exact ⟨.other fun _ _ h => h, .other fun _ _ h => h,
    .of (Blueprint.reader_ensures (k + 1)) fun _ _ h hr => ⟨h, hr.2⟩,
    .of hdefinitions fun _ _ h hr => ⟨hr.1, h⟩, .other fun _ _ h => h,
    fun _ h => absurd h List.not_mem_nil⟩

/-- A document that is loaded was read, and nothing is wrong with its ids. -/
theorem exists_of_deserialize {s : String} {d : Document} (h : deserialize s = .ok d) :
    (∃ rest, reader Json.depthLimit s.toList = .ok (d, rest)) ∧ d.flaw? = none := by
  rw [deserialize] at h
  split at h
  · exact nomatch h
  · exact nomatch h
  · next d' hrun =>
    split at h
    · exact nomatch h
    · next hflaw =>
      obtain rfl := Except.ok.inj h
      refine ⟨?_, hflaw⟩
      rw [run] at hrun
      split at hrun
      · exact nomatch hrun
      · next a rest hread =>
        split at hrun
        · obtain rfl := Except.ok.inj hrun
          exact ⟨rest, hread⟩
        · exact nomatch hrun

/-- What is read back from the text of a document is loaded from it. -/
theorem deserialize_of_reads {d : Document} (h : Reads (reader Json.depthLimit) d.toJson d)
    (hflaw : d.flaw? = none) : deserialize d.serialize = .ok d := by
  have hread := h.reads 0 Json.blank_nil Json.ends_nil
  rw [List.nil_append, List.append_nil] at hread
  have hrun : run reader d.serialize = .ok d := by
    rw [run, serialize, Json.pretty, String.toList_ofList, hread]
    rfl
  rw [deserialize, hrun]
  dsimp only
  rw [hflaw]

end Document

/-- **Documents survive saving and loading.**  A document that was loaded from
    any text is loaded from its own text again, and that text is then saved as
    it is. -/
theorem loaded_survives_saving (s : String) (d : Document) (h : Document.deserialize s = .ok d)
    (hfloats : ∀ x ∈ d.floats, x.ReadsBack)
    (htimes : ∀ t ∈ d.metadata.timestamps, t.ReadsBack) :
    Document.deserialize d.serialize = .ok d
      ∧ (Document.deserialize d.serialize).map Document.serialize = .ok d.serialize := by
  obtain ⟨⟨rest, hread⟩, hflaw⟩ := Document.exists_of_deserialize h
  have hfits : d.Fits 121 := Document.reader_ensures 121 hread
  have hback := Document.deserialize_of_reads (Document.reads hfits hfloats htimes) hflaw
  refine ⟨hback, ?_⟩
  rw [hback]
  rfl

/-! ### A document in another form than the one that is written -/

namespace Reshaped

/-- Records are arrays, one literal is given twice, a field is unknown, the
    default is null, `hidden` stands for `noPort`, and the time is a leap
    second at an offset. -/
def text : String :=
  "[\"1.2\",\"A\\u0042\",[\"b\",\"B\",\"function\","
    ++ "[[\"n\",\"print\",\"\",[1,2.5],\x7b\"b\":0.1,\"a\":[null],\"b\":2e1\x7d]],[]]"
    ++ ",[[\"d\",\"D\",\"c\",null,[\x7b\"hidden\":true,\"z\":[\x7b\x7d],"
    ++ "\"id\":\"p\",\"name\":\"\\n\",\"type\":\"exec\",\"defaultValue\":null\x7d]]]"
    ++ ",[\"2024-02-29T23:59:60+02:00\"]]"

def node : Node where
  id := "n"
  definitionId := "print"
  position := ⟨.ofNat 1, ⟨false, 4612811918334230528, by decide⟩⟩
  inputs := [("a", .array [.null]), ("b", .float (.ofNat 20))]

def document : Document where
  version := "1.2"
  name := "AB"
  blueprint := { id := "b", name := "B", kind := .function, nodes := [node] }
  definitions :=
    [{ id := "d", name := "D", category := "c"
       inputs := [{ id := "p", name := "\n", kind := .exec, hidden := true }] }]
  metadata := { createdAt := ⟨1709243999, 1000000000⟩ }

/-- The text is loaded, and what is assumed of decimals and time stamps holds
    of the document, by evaluation. -/
theorem text_loaded_and_values_read_back :
    Document.deserialize text = .ok document ∧ (∀ x ∈ document.floats, x.ReadsBack)
      ∧ Time.Timestamp.parse document.metadata.createdAt.text = .ok document.metadata.createdAt
      ∧ Time.Timestamp.parse document.metadata.lastModified.text
        = .ok document.metadata.lastModified := by
  decide +kernel

/-- The document is loaded from its own text too. -/
theorem document_survives : Document.deserialize text = .ok document
    ∧ Document.deserialize document.serialize = .ok document := by
  obtain ⟨hloaded, hfloats, hcreated, hmodified⟩ := text_loaded_and_values_read_back
  refine ⟨hloaded, (loaded_survives_saving text document hloaded hfloats fun t ht => ?_).1⟩
  rcases List.mem_cons.1 ht with rfl | ht
  · exact hcreated
  · exact List.mem_singleton.1 ht ▸ hmodified

end Reshaped

end Blueprints
