import Blueprints.Proofs.Graph.Documents
import Blueprints.Proofs.Storage.Persisting

/-! # What is saved can be listed and loaded

    A document is saved under its name with the extension behind it, listed
    without the extension, and loaded by a name that gets the extension unless
    it ends in it.  The three fit together for most names.  A name that ends
    in the extension is looked for under the name alone, where nothing is; and
    a name of dots alone is refused, though with the extension behind it it
    was accepted (`saved_listed_and_loaded`). -/

namespace Blueprints

/-! ## Names -/

namespace FileName

/-- A part of a valid name that is not blank is valid, unless it is dots
    alone. -/
theorem isValid_of_append {name ending : String} (h : isValid (name ++ ending) = true)
    (hname : Text.isBlankText name = false) :
    isValid name = !(Text.trimChars name.toList).all (· == '.') := by
  have hleft : (Text.trimChars name.toList).isEmpty = false := by
    rw [List.isEmpty_eq_false_iff]
    intro hnil
    rw [(Text.trimChars_eq_nil_iff name).1 hnil] at hname
    cases hname
  have hforbidden : name.toList.any forbidden.contains = false := by
    rw [List.any_eq_false]
    intro c hc hcontains
    refine notMem_of_isValid h (List.contains_iff_mem.1 hcontains) ?_
    rw [String.toList_append]
    exact List.mem_append_left _ hc
  simp [isValid, hleft, hforbidden]

theorem suffix_append (name : String) : ".bp".toList <:+ (name ++ "." ++ "bp").toList :=
  ⟨name.toList, by simp⟩

/-- A valid name that ends in the extension names a file. -/
theorem isPart_of_suffix {name : String} (h : isValid name = true)
    (hsuffix : ".bp".toList <:+ name.toList) : IsPart name := by
  obtain ⟨front, hfront⟩ := hsuffix
  have hlast : name.toList.getLast? = some 'p' := by simp [← hfront]
  exact isPart_of_getLast? h hlast (by decide)

end FileName

namespace ProjectFolder

variable {p : ProjectFolder} {t t' made : FileTree} {d : Document}

/-! ## The folder of the blueprints -/

/-- A project has no blueprints: nothing is in the folder for them, once there
    is one. -/
def Vacant (p : ProjectFolder) (t : FileTree) : Prop :=
  ∀ made, t.makeFolders p.blueprintsPath = .ok made → made.list p.blueprintsPath = .ok []

/-- A project on an empty disk has no blueprints, where the path of its folder
    does not go up. -/
theorem vacant_empty (hup : ".." ∉ (PathParts.of p.blueprintsPath).parts) : p.Vacant {} := by
  intro made hmade
  exact FileTree.list_made_in_empty p.isFolderPath_blueprintsPath.parts_ne_nil hup hmade

/-! ## Listing and loading -/

/-- A list names the files with the extension, without it and in order. -/
theorem run_listBlueprints {names : List String} (h : t.list p.blueprintsPath = .ok names) :
    (p.listBlueprints : OnTree (List String)).run t
      = (.ok (sortNames ((names.filter isBlueprintFile).map FileName.stem)), t) := by
  obtain ⟨loc, hloc, hfolder, -⟩ := FileTree.list_eq_ok_iff.1 h
  have hholds : t.holds p.blueprintsPath = true := by
    rw [FileTree.holds, hloc]
    simp [hfolder]
  have hask : (liftM (Disk.holds p.blueprintsPath : StateM FileTree Bool) :
      OnTree Bool).run t = (.ok true, t) := by
    rw [← hholds]
    rfl
  have hlist : (onDisk p.blueprintsPath Disk.list :
      OnTree (List String)).run t = (.ok names, t) := by
    rw [run_list, h]
    rfl
  rw [listBlueprints, run_bind_of_ok _ hask, if_pos rfl, run_bind_of_ok _ hlist]
  rfl

/-- A file that can be read is loaded as the document it holds. -/
theorem run_loadBlueprint_of_ok {reference text : String}
    (hvalid : FileName.isValid reference = true)
    (h : t.readText (p.blueprintPath reference) = .ok text) :
    (p.loadBlueprint reference : OnTree Document).run t
      = (Document.read text, t) := by
  have hread : (onDisk (p.blueprintPath reference) Disk.readText :
      OnTree String).run t = (.ok text, t) := by
    rw [run_readText, h]
    rfl
  rw [loadBlueprint, if_pos hvalid, run_bind_of_ok _ hread]
  rfl

/-- A file that cannot be read is not loaded, and the failure says why. -/
theorem run_loadBlueprint_of_error {reference : String} {e : DiskError}
    (hvalid : FileName.isValid reference = true)
    (h : t.readText (p.blueprintPath reference) = .error e) :
    (p.loadBlueprint reference : OnTree Document).run t
      = (.error (.disk (p.blueprintPath reference) e), t) := by
  have hread : (onDisk (p.blueprintPath reference) Disk.readText :
      OnTree String).run t
      = (.error (.disk (p.blueprintPath reference) e), t) := by
    rw [run_readText, h]
    rfl
  rw [loadBlueprint, if_pos hvalid, run_bind_of_error _ hread]

theorem run_loadBlueprint_of_invalid {reference : String}
    (hvalid : FileName.isValid reference = false) :
    (p.loadBlueprint reference : OnTree Document).run t
      = (.error (.invalidFileName reference), t) := by
  rw [loadBlueprint, if_neg (by simp [hvalid])]
  rfl

/-- The file of a reference that has the extension. -/
theorem blueprintPath_of_suffix {reference : String} (h : ".bp".toList <:+ reference.toList) :
    p.blueprintPath reference = joinPath p.blueprintsPath reference :=
  congrArg (joinPath p.blueprintsPath) (if_pos (List.isSuffixOf_iff_suffix.2 h))

/-- The file of a reference that gets the extension. -/
theorem blueprintPath_of_not_suffix {reference : String} (h : ¬ ".bp".toList <:+ reference.toList) :
    p.blueprintPath reference = joinPath p.blueprintsPath (reference ++ "." ++ "bp") := by
  have hending : reference ++ "." ++ "bp" = reference ++ ".bp" := by
    rw [String.append_assoc]
    rfl
  rw [hending]
  exact congrArg (joinPath p.blueprintsPath) (if_neg (mt List.isSuffixOf_iff_suffix.1 h))

/-! ## After saving -/

section Saved

variable {path : String} (hvacant : p.Vacant t) (hname : Text.isBlankText d.name = false)
  (hsaved : (p.saveDocument d : OnTree String).run t = (.ok path, t'))

theorem documentFile_eq (hname : Text.isBlankText d.name = false) :
    documentFile d = d.name ++ "." ++ "bp" := by
  rw [documentFile, if_neg (by simp [hname])]
  rfl

theorem split_documentFile (hname : Text.isBlankText d.name = false) :
    FileName.split (documentFile d) = (d.name, some "bp") := by
  rw [documentFile_eq hname]
  exact FileName.split_append (Text.ne_nil_of_not_blank hname) (by decide)

theorem isBlueprintFile_documentFile (hname : Text.isBlankText d.name = false) :
    isBlueprintFile (documentFile d) = true := by
  rw [isBlueprintFile, FileName.extension?, split_documentFile hname]
  rfl

include hvacant hname hsaved

/-- What stands in the folder of the blueprints: the file of the document and
    nothing else. -/
theorem tree_of_saved : FileName.isValid (documentFile d) = true
    ∧ t'.list p.blueprintsPath = .ok [documentFile d]
    ∧ t'.readText (joinPath p.blueprintsPath (documentFile d)) = .ok d.serialize
    ∧ ∀ other, FileName.IsPart other → other ≠ documentFile d →
        t'.readText (joinPath p.blueprintsPath other) = .error .notFound := by
  obtain ⟨hvalid, -, made, hmade, hwritten⟩ := run_persist_eq_ok_iff.1 hsaved
  have hbase := p.isFolderPath_blueprintsPath
  rw [folderOf, if_pos (isBlueprintFile_documentFile hname)] at hmade hwritten
  have hpart : FileName.IsPart (documentFile d) := by
    refine FileName.isPart_of_suffix hvalid ?_
    rw [documentFile_eq hname]
    exact FileName.suffix_append d.name
  have hempty := hvacant made hmade
  rw [hbase.joinPath_eq hpart] at hwritten
  refine ⟨hvalid, FileTree.list_written hbase.ne_nil hpart hempty hwritten, ?_, ?_⟩
  · rw [hbase.joinPath_eq hpart]
    exact FileTree.readText_written hbase.ne_nil hpart hempty hwritten
  · intro other hother hne
    rw [hbase.joinPath_eq hother]
    exact FileTree.readText_other hbase.ne_nil hpart hempty hother hne hwritten

/-- By its name a document is loaded if the name is no name of dots and does
    not end in the extension. -/
theorem run_loadBlueprint_name (hread : Document.read d.serialize = .ok d) :
    (p.loadBlueprint d.name : OnTree Document).run t'
      = (if (Text.trimChars d.name.toList).all (· == '.') then .error (.invalidFileName d.name)
        else if ".bp".toList <:+ d.name.toList then
          .error (.disk (joinPath p.blueprintsPath d.name) .notFound)
        else .ok d, t') := by
  obtain ⟨hvalid, -, htext, hnone⟩ := tree_of_saved hvacant hname hsaved
  have hfile := documentFile_eq hname
  rw [hfile, String.append_assoc] at hvalid
  have haccepts := FileName.isValid_of_append hvalid hname
  by_cases hdots : (Text.trimChars d.name.toList).all (· == '.') = true
  · rw [if_pos hdots]
    rw [hdots] at haccepts
    exact run_loadBlueprint_of_invalid haccepts
  · rw [Bool.eq_false_iff.2 hdots] at haccepts
    rw [if_neg hdots]
    by_cases hsuffix : ".bp".toList <:+ d.name.toList
    · have hne : d.name ≠ documentFile d := by
        rw [hfile]
        intro hsame
        have hlength := congrArg (List.length ∘ String.toList) hsame
        simp at hlength
      -- the name is taken for that of a file, and the file has another
      have hmissing := hnone d.name (FileName.isPart_of_suffix haccepts hsuffix) hne
      rw [← blueprintPath_of_suffix hsuffix] at hmissing
      rw [if_pos hsuffix, run_loadBlueprint_of_error haccepts hmissing,
        blueprintPath_of_suffix hsuffix]
    · rw [hfile, ← blueprintPath_of_not_suffix hsuffix] at htext
      rw [if_neg hsuffix, run_loadBlueprint_of_ok haccepts htext, hread]

end Saved

/-- **What is saved can be listed, and loaded by the name of its file.**  A
    document with a name that is not blank, which is read back from its own
    text, is saved in a project without blueprints.  Then its name is the one
    that is listed, and the document is loaded by its file name.  By its name
    it is loaded too, but for two kinds of names: one of dots alone between
    blank ends is refused, and one that ends in the extension is looked for
    where nothing is. -/
theorem saved_listed_and_loaded {path : String} (hvacant : p.Vacant t)
    (hname : Text.isBlankText d.name = false) (hback : Document.deserialize d.serialize = .ok d)
    (hsaved : (p.saveDocument d : OnTree String).run t = (.ok path, t')) :
    (p.listBlueprints : OnTree (List String)).run t' = (.ok [d.name], t')
      ∧ (p.loadBlueprint (documentFile d) : OnTree Document).run t' = (.ok d, t')
      ∧ (p.loadBlueprint d.name : OnTree Document).run t'
        = (if (Text.trimChars d.name.toList).all (· == '.') then .error (.invalidFileName d.name)
          else if ".bp".toList <:+ d.name.toList then
            .error (.disk (joinPath p.blueprintsPath d.name) .notFound)
          else .ok d, t') := by
  obtain ⟨hvalid, hlist, htext, -⟩ := tree_of_saved hvacant hname hsaved
  have hread : Document.read d.serialize = .ok d := by
    rw [Document.read, hback]
    rfl
  refine ⟨?_, ?_, run_loadBlueprint_name hvacant hname hsaved hread⟩
  · rw [run_listBlueprints hlist]
    simp [isBlueprintFile_documentFile hname, FileName.stem, split_documentFile hname, sortNames,
      insertName]
  · have hsuffix : ".bp".toList <:+ (documentFile d).toList := by
      rw [documentFile_eq hname]
      exact FileName.suffix_append d.name
    rw [← blueprintPath_of_suffix hsuffix] at htext
    rw [run_loadBlueprint_of_ok hvalid htext, hread]

end ProjectFolder

/-! ### Three documents -/

namespace SavedNames

def folder : ProjectFolder := ⟨"proj"⟩

/-- A document with an empty blueprint. -/
def document (name : String) : Document where
  version := "1.0.0"
  name := name
  blueprint := { name := name }
  definitions := []
  metadata := { createdAt := .epoch }

/-- The disk with the document and nothing else. -/
def disk (name : String) : FileTree :=
  ((folder.saveDocument (document name) : ProjectFolder.OnTree String).run {}).2

/-- The documents are read back, whatever their names. -/
theorem document_back (name : String) :
    Document.deserialize (document name).serialize = .ok (document name) := by
  have hfits : (document name).Fits 121 := by
    refine ⟨⟨?_, Json.fits_nil 124⟩, ?_⟩
    · intro n hn
      cases hn
    · intro definition hdefinition
      cases hdefinition
  have hepoch : Time.Timestamp.parse Time.Timestamp.epoch.text = .ok .epoch := by decide +kernel
  have hfloats : ∀ x ∈ (document name).floats, x.ReadsBack := by
    intro x hx
    cases hx
  have htimes : ∀ t ∈ (document name).metadata.timestamps, t.ReadsBack := by
    intro t ht
    simp only [Metadata.timestamps, document, List.mem_cons, List.not_mem_nil, or_false,
      or_self] at ht
    rw [ht]
    exact hepoch
  have hflaw : (document name).flaw? = none := by
    have hversion : (Document.majorVersion "1.0.0" != "1") = false := by decide
    rw [Document.flaw?, show (document name).version = "1.0.0" from rfl, hversion]
    rfl
  exact Document.deserialize_of_reads (Document.reads hfits hfloats htimes) hflaw

/-- The documents are saved on an empty disk, by evaluation. -/
theorem saved_on_empty_disk : ∀ name ∈ ["a", "a.bp", "."],
    ((folder.saveDocument (document name) : ProjectFolder.OnTree String).run {}).1
      = .ok ("proj/blueprints/" ++ name ++ ".bp") := by
  decide +kernel

/-- All three are listed; by its name only the first is loaded. -/
theorem first_loaded_and_others_not :
    (folder.listBlueprints : ProjectFolder.OnTree (List String)).run (disk "a.bp")
        = (.ok ["a.bp"], disk "a.bp")
      ∧ (folder.loadBlueprint "a" : ProjectFolder.OnTree Document).run (disk "a")
        = (.ok (document "a"), disk "a")
      ∧ (folder.loadBlueprint "a.bp" : ProjectFolder.OnTree Document).run (disk "a.bp")
        = (.error (.disk "proj/blueprints/a.bp" .notFound), disk "a.bp")
      ∧ (folder.loadBlueprint "." : ProjectFolder.OnTree Document).run (disk ".")
        = (.error (.invalidFileName "."), disk ".") := by
  have hsaved : ∀ name ∈ ["a", "a.bp", "."],
      (folder.saveDocument (document name) : ProjectFolder.OnTree String).run {}
        = (.ok ("proj/blueprints/" ++ name ++ ".bp"), disk name) := by
    intro name hname
    rw [disk, ← saved_on_empty_disk name hname, Prod.eta]
  have hvacant : folder.Vacant {} := ProjectFolder.vacant_empty (by decide)
  have hall : ∀ name ∈ ["a", "a.bp", "."], Text.isBlankText name = false := by decide
  have hlisted := fun name hname => ProjectFolder.saved_listed_and_loaded hvacant
    (hall name hname) (document_back name) (hsaved name hname)
  exact ⟨(hlisted "a.bp" (by decide)).1, (hlisted "a" (by decide)).2.2,
    (hlisted "a.bp" (by decide)).2.2, (hlisted "." (by decide)).2.2⟩

end SavedNames

end Blueprints
